import Mathlib.Algebra.BigOperators.Group.List.Basic
import MixedInteger.Proofs.EditMeaning
import MixedInteger.Proofs.Verdicts

/-!
# Terms of a new row

A constraint can be added with all its terms at once, or without any and then term by
term.  The first way writes every variable through the non-basic ones while the row is
built, the second rewrites the stored row once for each term.  Over the rationals both
add up the same multiples of the same entries, so the order of the terms plays no part
and the two ways leave the same tableau behind.
-/

namespace MixedInteger

namespace Dictionary

variable {d : Dictionary Rat} {slack index c : Nat} {row row' : Array Rat}

/-- The entry of a column in a row that holds one variable alone. -/
def share (d : Dictionary Rat) (index c : Nat) : Rat :=
  match d.column? index with
  | some e => if c = e then 1 else 0
  | none =>
    match d.row? index with
    | some r => -d.entry r c
    | none => 0

/-- The places that are recorded for a variable of the dictionary. -/
theorem HasVariable.places (h : d.IsNamed) (hindex : d.HasVariable index) :
    (∃ e ∈ d.columns, d.column? index = some e) ∨
      ∃ r ∈ d.rows, d.column? index = none ∧ d.row? index = some r := by
  rcases hindex with ⟨r, hr, hname⟩ | ⟨e, he, hname⟩
  · obtain ⟨index', hname', hrow, hcolumn⟩ := h.basic_placed r hr
    obtain rfl : index = index' := Option.some.inj (hname.symm.trans hname')
    exact .inr ⟨r, hr, hcolumn, hrow⟩
  · exact .inl ⟨e, he, h.column?_eq_some he hname⟩

theorem HasVariable.mentions (h : d.IsNamed) (hindex : d.HasVariable index) :
    d.Mentions index := by
  rcases hindex.places h with ⟨e, -, hcolumn⟩ | ⟨r, -, -, hrow⟩
  · exact .inr (by rw [hcolumn]; rfl)
  · exact .inl (by rw [hrow]; rfl)

theorem eq_of_entryOf (hsize : row'.size = row.size)
    (hentry : ∀ c < row.size, entryOf row' c = entryOf row c) : row' = row := by
  apply Array.ext hsize
  intro c hc hc'
  have hcolumn := hentry c hc'
  rw [entryOf_eq, entryOf_eq, Array.getElem?_eq_getElem hc, Array.getElem?_eq_getElem hc']
    at hcolumn
  exact hcolumn

/-- The last row can still be exchanged for another one. -/
theorem modifyRow_pushRow (h : d.matrix.size = d.height) (slack : Nat) (row row' : Array Rat) :
    (d.pushRow slack row).modifyRow d.height (fun _ => row') = d.pushRow slack row' := by
  have hmatrix : (d.matrix.push row).modify d.height (fun _ => row') = d.matrix.push row' := by
    rw [← h]
    apply Array.ext
    · rw [Array.size_modify, Array.size_push, Array.size_push]
    · intro i hi hi'
      rw [Array.getElem_modify]
      by_cases hlast : d.matrix.size = i
      · subst hlast
        rw [if_pos rfl, Array.getElem_push_eq]
      · rw [Array.size_push] at hi'
        rw [if_neg hlast, Array.getElem_push_lt (by omega), Array.getElem_push_lt (by omega)]
  unfold modifyRow pushRow
  rw [hmatrix]

end Dictionary

namespace Tableau

variable {t : Tableau Rat} {d : Dictionary Rat} {slack index c : Nat} {sign coefficient : Rat}
  {row row' : Array Rat} {terms : List (Term Rat)} {isUpperBound : Bool}

/-! ## Entries of a row of terms -/

theorem entryOf_of_addToRow? (h : d.IsNamed) (hindex : d.HasVariable index)
    (hsize : row.size = d.width) (hadd : addToRow? d index coefficient row = some row')
    (hc : c < d.width) :
    Dictionary.entryOf row' c = Dictionary.entryOf row c + coefficient * d.share index c := by
  rcases hindex.places h with ⟨e, he, hcolumn⟩ | ⟨r, -, hcolumn, hrow⟩
  · have hbound : e < row.size := (Dictionary.mem_columns.1 he).2.trans_eq hsize.symm
    rw [addToRow?, hcolumn, Option.some.injEq] at hadd
    rw [← hadd, Dictionary.entryOf_addAt hbound, Dictionary.share, hcolumn]
    by_cases hce : c = e
    · rw [if_pos hce]
      simp [hce]
    · rw [if_neg hce]
      simp [hce]
  · rw [addToRow?, hcolumn, hrow, Option.map_some, Option.some.injEq] at hadd
    rw [← hadd, Dictionary.entryOf_subtractMultiple (hc.trans_eq hsize.symm), Dictionary.share,
      hcolumn, hrow]
    simp only [Dictionary.entry]
    ring

/-- The terms add their multiples to every entry of the row. -/
theorem entryOf_of_addTerms (h : d.IsNamed) (hterms : ∀ term ∈ terms, d.HasVariable term.index)
    (hsize : row.size = d.width) (hadd : addTerms d sign terms row = .ok row')
    (hc : c < d.width) :
    Dictionary.entryOf row' c = Dictionary.entryOf row c +
      (terms.map fun term => sign * term.coefficient * d.share term.index c).sum := by
  induction terms generalizing row with
  | nil =>
    injection hadd with hrow
    rw [hrow, List.map_nil, List.sum_nil, add_zero]
  | cons term rest ih =>
    obtain ⟨hterm, hrest⟩ := List.forall_mem_cons.1 hterms
    obtain ⟨middle, hmiddle, hmiddleSize⟩ :=
      addToRow?_of_mentions (hterm.mentions h) (sign * term.coefficient) row
    rw [addTerms, hmiddle] at hadd
    rw [ih hrest (hmiddleSize.trans hsize) hadd, entryOf_of_addToRow? h hterm hsize hmiddle hc,
      List.map_cons, List.sum_cons, add_assoc]

/-! ## One term after the other -/

/-- A row that was pushed changes nothing about the places and rows of the others. -/
theorem addToRow?_pushRow (h : d.IsNamed) (hsize : d.matrix.size = d.height)
    (hslack : ¬ d.Mentions slack) (hindex : d.HasVariable index) (new : Array Rat) :
    addToRow? (d.pushRow slack new) index coefficient row = addToRow? d index coefficient row := by
  have hne : index ≠ slack := by
    rintro rfl
    exact hslack (hindex.mentions h)
  have hcolumns := Dictionary.column?_pushRow hslack new index
  have hrows := Dictionary.row?_pushRow d slack new index
  rw [if_neg hne] at hrows
  rw [addToRow?, addToRow?, hcolumns, hrows]
  rcases hindex.places h with ⟨e, -, hcolumn⟩ | ⟨r, hr, hcolumn, hrow⟩
  · rw [hcolumn]
  · have hold : (d.pushRow slack new).row r = d.row r := by
      rw [Dictionary.row_pushRow, hsize, if_neg (Nat.ne_of_lt (Dictionary.mem_rows.1 hr).2)]
    rw [hcolumn, hrow, Option.map_some, Option.map_some, hold]

/-- A change of a coefficient in the row that was pushed last rewrites this row. -/
theorem changeCoefficient_pushRow (h : t.dictionary.IsNamed)
    (hsize : t.dictionary.matrix.size = t.dictionary.height) (hsnapshot : t.snapshot = none)
    (hslack : ¬ t.dictionary.Mentions slack) (hindex : t.dictionary.HasVariable index)
    (hadd : addToRow? t.dictionary index (boundSign isUpperBound * coefficient) row = some row') :
    changeCoefficient slack isUpperBound index coefficient
        (t.modifyDictionary fun d => d.pushRow slack row) =
      .ok () (t.modifyDictionary fun d => d.pushRow slack row') := by
  have hne : (slack == index) = false := by
    rw [beq_eq_false_iff_ne]
    rintro rfl
    exact hslack (hindex.mentions h)
  have hplace : (t.dictionary.pushRow slack row).row? slack = some t.dictionary.height := by
    rw [Dictionary.row?_pushRow, if_pos rfl]
  have henter : enterBasis slack (t.modifyDictionary fun d => d.pushRow slack row) =
      .ok t.dictionary.height (t.modifyDictionary fun d => d.pushRow slack row) := by
    simp only [enterBasis, bind, EStateM.bind, run_get, modifyDictionary, hplace]
    rfl
  have hrow : (t.dictionary.pushRow slack row).row t.dictionary.height = row := by
    rw [Dictionary.row_pushRow, hsize, if_pos rfl]
  have hchanged : addToRow? (t.dictionary.pushRow slack row) index
      (orientBound isUpperBound coefficient) row = some row' := by
    rw [addToRow?_pushRow h hsize hslack hindex, orientBound_eq]
    exact hadd
  have hdiscard : (modify discardSearch : Action Rat PUnit)
      (t.modifyDictionary fun d => d.pushRow slack row) =
        .ok ⟨⟩ (t.modifyDictionary fun d => d.pushRow slack row) :=
    modify_discardSearch hsnapshot
  unfold changeCoefficient
  rw [hne]
  apply (bind_of_ok hdiscard).trans
  rw [bind_of_ok henter, bind_of_ok (run_get _)]
  simp only [modifyDictionary, hrow, hchanged, run_set]
  rw [Dictionary.modifyRow_pushRow hsize]

/-- Changes of coefficients one after the other build the row of all terms. -/
theorem changeCoefficients_pushRow (h : t.dictionary.IsNamed)
    (hsize : t.dictionary.matrix.size = t.dictionary.height) (hsnapshot : t.snapshot = none)
    (hslack : ¬ t.dictionary.Mentions slack)
    (hterms : ∀ term ∈ terms, t.dictionary.HasVariable term.index)
    (hadd : addTerms t.dictionary (boundSign isUpperBound) terms row = .ok row') :
    terms.forM
        (fun term => changeCoefficient slack isUpperBound term.index term.coefficient)
        (t.modifyDictionary fun d => d.pushRow slack row) =
      .ok () (t.modifyDictionary fun d => d.pushRow slack row') := by
  induction terms generalizing row with
  | nil =>
    injection hadd with hrow
    rw [hrow]
    rfl
  | cons term rest ih =>
    obtain ⟨hterm, hrest⟩ := List.forall_mem_cons.1 hterms
    obtain ⟨middle, hmiddle, -⟩ := addToRow?_of_mentions (hterm.mentions h)
      (boundSign isUpperBound * term.coefficient) row
    rw [addTerms, hmiddle] at hadd
    have hfirst := changeCoefficient_pushRow h hsize hsnapshot hslack hterm hmiddle
    rw [← ih hrest hadd]
    exact forM_cons_of_ok hfirst

/-! ## Both ways -/

/-- A constraint that is added with all its terms, and one that is added without terms and
then gets them one by one in any order, give the same tableau: the old one with one more
row, in which the terms add up. -/
theorem addConstraint_eq_changeCoefficients (t : Tableau Rat) (slack : Nat) (isUpperBound : Bool)
    (rhs : Rat) (terms terms' : List (Term Rat)) (hvalidate : t.validate = .ok ())
    (hsnapshot : t.snapshot = none) (hslack : ¬ t.dictionary.Mentions slack)
    (hterms : ∀ term ∈ terms, t.dictionary.HasVariable term.index)
    (hperm : terms'.Perm terms) :
    ∃ row, row.size = t.dictionary.width ∧
      (∀ c < t.dictionary.width, Dictionary.entryOf row c =
        (if c = 0 then boundSign isUpperBound * rhs else 0) +
          (terms.map fun term => boundSign isUpperBound * term.coefficient *
            t.dictionary.share term.index c).sum) ∧
      addConstraint slack isUpperBound rhs terms t =
        .ok () (t.modifyDictionary fun d => d.pushRow slack row) ∧
      (do
        addConstraint slack isUpperBound rhs []
        terms'.forM fun term =>
          changeCoefficient slack isUpperBound term.index term.coefficient) t =
        .ok () (t.modifyDictionary fun d => d.pushRow slack row) := by
  obtain ⟨hsize, -, hnamed, -⟩ := (validate_eq_ok_iff t).1 hvalidate
  have hterms' : ∀ term ∈ terms', t.dictionary.HasVariable term.index :=
    fun term hterm => hterms term (hperm.mem_iff.1 hterm)
  obtain ⟨row, hrow, hwidth, hadd⟩ := addConstraint_of_mentions
    (fun term hterm => (hterms term hterm).mentions hnamed) slack isUpperBound rhs
  obtain ⟨row', hrow', hwidth', -⟩ := addConstraint_of_mentions
    (fun term hterm => (hterms' term hterm).mentions hnamed) slack isUpperBound rhs
  have hstart : ((Array.replicate t.dictionary.width (0 : Rat)).setIfInBounds 0
      (boundSign isUpperBound * rhs)).size = t.dictionary.width := by
    rw [Array.size_setIfInBounds, Array.size_replicate]
  have hentry (c : Nat) (hc : c < t.dictionary.width) :=
    entryOf_of_addTerms hnamed hterms hstart hrow hc
  have hsame : row' = row := by
    apply Dictionary.eq_of_entryOf (hwidth'.trans hwidth.symm)
    intro c hc
    rw [hwidth] at hc
    rw [hentry c hc, entryOf_of_addTerms hnamed hterms' hstart hrow' hc,
      (hperm.map fun term => boundSign isUpperBound * term.coefficient *
        t.dictionary.share term.index c).sum_eq]
  refine ⟨row, hwidth, ?_, hadd, ?_⟩
  · intro c hc
    rw [hentry c hc, Dictionary.entryOf_setIfInBounds (by
      rw [Array.size_replicate]
      exact Nat.lt_of_le_of_lt (Nat.zero_le c) hc), Dictionary.entryOf_replicate_zero]
  · rw [hsame] at hrow'
    have hfirst : addConstraint slack isUpperBound rhs [] t = .ok () (t.modifyDictionary
        fun d => d.pushRow slack ((Array.replicate t.dictionary.width 0).setIfInBounds 0
          (boundSign isUpperBound * rhs))) := rfl
    rw [bind_of_ok hfirst]
    exact changeCoefficients_pushRow hnamed hsize hsnapshot hslack hterms' hrow'

/-- Terms on basic and non-basic variables, one of them twice, in two orders. -/
theorem addConstraint_eq_changeCoefficients_twoGoals :
    let terms : List (Term Rat) := [⟨2, 3⟩, ⟨0, 1⟩, ⟨2, -1⟩, ⟨1, 1 / 2⟩]
    ∃ row : Array Rat, row = #[-11, -3, -5 / 2] ∧
      addConstraint 4 false 5 terms twoGoals =
        .ok () (twoGoals.modifyDictionary fun d => d.pushRow 4 row) ∧
      (do
        addConstraint 4 false 5 []
        terms.reverse.forM fun term => changeCoefficient 4 false term.index term.coefficient)
          twoGoals = .ok () (twoGoals.modifyDictionary fun d => d.pushRow 4 row) := by
  intro terms
  have hterms : ∀ term ∈ terms, twoGoals.dictionary.HasVariable term.index := by
    unfold Dictionary.HasVariable
    decide +kernel
  have hslack : ¬ twoGoals.dictionary.Mentions 4 := by
    unfold Dictionary.Mentions
    decide +kernel
  obtain ⟨row, hsize, hentry, hadd, hchange⟩ := addConstraint_eq_changeCoefficients twoGoals 4
    false 5 terms terms.reverse (by decide +kernel) rfl hslack hterms (List.reverse_perm terms)
  have hrow : ∀ c < twoGoals.dictionary.width,
      Dictionary.entryOf (#[-11, -3, -5 / 2] : Array Rat) c =
        (if c = 0 then boundSign false * 5 else 0) +
          (terms.map fun term => boundSign false * term.coefficient *
            twoGoals.dictionary.share term.index c).sum := by
    decide +kernel
  refine ⟨row, ?_, hadd, hchange⟩
  apply Dictionary.eq_of_entryOf hsize
  intro c hc
  rw [hentry c hc, hrow c hc]

end Tableau

end MixedInteger
