/-
Lookout.Proofs.Text.Pieces — texts that are cut at a separator, and texts with
blanks around them.

`IsCut` says what cutting gives without the procedure: pieces without the
separator that make up the text when they are joined by it. `IsTrimmed` says the
same of the removal of blanks: what remains neither begins nor ends with one.
-/
import Lookout.Text.Blank
import Mathlib.Data.List.TakeWhile

namespace Lookout

namespace Text

/-! ## Runs of characters -/

section Runs

variable {p : Char → Bool} {run rest : List Char} (hrun : ∀ c ∈ run, p c = true)
  (hrest : ∀ c ∈ rest.head?, p c = false)

include hrun hrest

/-- A run ends where none of its characters follows. -/
theorem takeWhile_append : (run ++ rest).takeWhile p = run := by
  rw [List.takeWhile_append_of_pos hrun]
  cases rest with
  | nil => simp
  | cons c rest => simp [hrest c (by simp)]

theorem dropWhile_append : (run ++ rest).dropWhile p = rest := by
  rw [List.dropWhile_append_of_pos hrun]
  cases rest with
  | nil => simp
  | cons c rest => simp [hrest c (by simp)]

end Runs

/-! ## Cutting -/

/-- `pieces` is what a text is cut into at every `separator`. -/
def IsCut (separator : Char) (text : List Char) (pieces : List (List Char)) : Prop :=
  pieces ≠ [] ∧ (∀ piece ∈ pieces, separator ∉ piece) ∧ [separator].intercalate pieces = text

theorem not_mem_splitOn (separator : Char) (text : List Char) :
    ∀ piece ∈ text.splitOn separator, separator ∉ piece := by
  induction text with
  | nil => simp
  | cons c rest ih =>
    rw [List.splitOn_cons_eq_if_modifyHead]
    split
    · simpa using ih
    · next hc =>
      cases hpieces : rest.splitOn separator with
      | nil => simp
      | cons piece pieces =>
        rw [hpieces] at ih
        simp only [List.modifyHead_cons, List.mem_cons, forall_eq_or_imp] at ih ⊢
        refine ⟨?_, ih.2⟩
        intro h
        obtain rfl | hmem := h
        · simp at hc
        · exact ih.1 hmem

theorem isCut_iff {separator : Char} {text : List Char} {pieces : List (List Char)} :
    IsCut separator text pieces ↔ text.splitOn separator = pieces := by
  constructor
  · intro h
    obtain ⟨hne, hfree, rfl⟩ := h
    exact List.splitOn_intercalate separator hfree hne
  · rintro rfl
    exact ⟨List.splitOn_ne_nil _ _, not_mem_splitOn _ _, List.intercalate_splitOn _⟩

theorem length_splitOn (separator : Char) (text : List Char) :
    (text.splitOn separator).length = text.count separator + 1 := by
  induction text with
  | nil => simp
  | cons c rest ih =>
    rw [List.splitOn_cons_eq_if_modifyHead, List.count_cons]
    split <;> simp [ih]

theorem intercalate_append {separator : Char} {pieces pieces' : List (List Char)}
    (h : pieces ≠ []) (h' : pieces' ≠ []) :
    [separator].intercalate (pieces ++ pieces') =
      [separator].intercalate pieces ++ separator :: [separator].intercalate pieces' := by
  induction pieces with
  | nil => exact absurd rfl h
  | cons piece rest ih =>
    cases rest with
    | nil => simp [List.intercalate_cons_of_ne_nil h']
    | cons next rest =>
      have hrest := ih (by simp)
      rw [List.cons_append] at hrest
      rw [List.cons_append, List.cons_append, List.intercalate_cons_cons, hrest,
        List.intercalate_cons_cons, List.append_assoc (piece ++ [separator])]

/-! ## Trimming -/

/-- `field` is `token` with blanks before and after it. -/
def IsPadded (token field : List Char) : Prop :=
  ∃ before after, (∀ c ∈ before, isBlank c = true) ∧ (∀ c ∈ after, isBlank c = true) ∧
    before ++ token ++ after = field

theorem isPadded_trim (field : List Char) : IsPadded (trim field) field := by
  refine ⟨field.takeWhile isBlank,
    ((field.dropWhile isBlank).reverse.takeWhile isBlank).reverse,
    fun c hc => List.mem_takeWhile_imp hc,
    fun c hc => List.mem_takeWhile_imp (List.mem_reverse.mp hc), ?_⟩
  rw [trim, List.append_assoc, ← List.reverse_append, List.takeWhile_append_dropWhile,
    List.reverse_reverse, List.takeWhile_append_dropWhile]

/-- `token` is `field` without the blanks around it: it begins and ends with none. -/
structure IsTrimmed (token field : List Char) : Prop where
  padded : IsPadded token field
  head_not_blank : ∀ c ∈ token.head?, isBlank c = false
  last_not_blank : ∀ c ∈ token.getLast?, isBlank c = false

theorem isBlank_head_dropWhile (text : List Char) :
    ∀ c ∈ (text.dropWhile isBlank).head?, isBlank c = false := by
  intro c hc
  have h := List.head?_dropWhile_not isBlank text
  rwa [Option.mem_def.mp hc] at h

theorem isTrimmed_trim (field : List Char) : IsTrimmed (trim field) field where
  padded := isPadded_trim field
  head_not_blank := by
    intro c hc
    obtain ⟨rest, hrest⟩ := List.head?_eq_some_iff.mp (Option.mem_def.mp hc)
    obtain ⟨after, hafter⟩ : ∃ after, trim field ++ after = field.dropWhile isBlank :=
      ⟨_, by rw [trim, ← List.reverse_append, List.takeWhile_append_dropWhile,
        List.reverse_reverse]⟩
    refine isBlank_head_dropWhile field c ?_
    rw [← hafter, hrest]
    rfl
  last_not_blank := by
    intro c hc
    rw [trim, List.getLast?_reverse] at hc
    exact isBlank_head_dropWhile _ c hc

theorem trim_eq_of_isTrimmed {token field : List Char} (h : IsTrimmed token field) :
    trim field = token := by
  obtain ⟨⟨before, after, hbefore, hafter, rfl⟩, hhead, hlast⟩ := h
  have hafter' : ∀ c ∈ after.reverse, isBlank c = true :=
    fun c hc => hafter c (List.mem_reverse.mp hc)
  cases htoken : token with
  | nil =>
    have hnone : (before ++ after).dropWhile isBlank = [] :=
      List.dropWhile_eq_nil_iff.mpr fun c hc =>
        (List.mem_append.mp hc).elim (hbefore c) (hafter c)
    rw [trim, List.append_nil, hnone]
    rfl
  | cons first rest =>
    rw [← htoken]
    have hstart : (before ++ token ++ after).dropWhile isBlank = token ++ after := by
      rw [List.append_assoc]
      refine dropWhile_append hbefore ?_
      simpa [htoken] using hhead
    have hend : (token ++ after).reverse.dropWhile isBlank = token.reverse := by
      rw [List.reverse_append]
      exact dropWhile_append hafter' (by simpa using hlast)
    rw [trim, hstart, hend, List.reverse_reverse]

theorem isTrimmed_iff {token field : List Char} : IsTrimmed token field ↔ trim field = token :=
  ⟨trim_eq_of_isTrimmed, fun h => h ▸ isTrimmed_trim field⟩

theorem trim_eq_nil_iff {field : List Char} :
    trim field = [] ↔ ∀ c ∈ field, isBlank c = true := by
  rw [← isTrimmed_iff]
  constructor
  · intro h
    obtain ⟨before, after, hbefore, hafter, rfl⟩ := h.padded
    simpa using fun c hc => hc.elim (hbefore c) (hafter c)
  · intro h
    exact ⟨⟨field, [], h, by simp, by simp⟩, by simp, by simp⟩

end Text

end Lookout
