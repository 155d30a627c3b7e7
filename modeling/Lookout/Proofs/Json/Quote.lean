/-
Lookout.Proofs.Json.Quote — a quoted string reads back as its content.

Every character is written in such a way that it is read as one part of the
string, which stands for this very character (`exists_part`). So the parts of
a quoted string stand for its content, whatever that is, and the document of
the string alone is read as this string (`read?_quote`).
-/
import Lookout.Json.Node
import Lookout.Json.Source

namespace Lookout

namespace Json

/-! ## One character -/

theorem codeUnit?_control {n : Nat} (hn : n < 32) :
    codeUnit? (some '0') (some '0') (some (Nat.digitChar (n / 16)))
      (some (Nat.digitChar (n % 16))) = some n := by
  revert n
  decide

theorem content?_char (found : List Char) (c : Char) (rest : List StringPart) :
    content? found (.char c :: rest) = content? (c :: found) rest := by
  rw [content?]

theorem content?_code {unit : Nat} (hunit : unit < 32) (found : List Char)
    (rest : List StringPart) :
    content? found (.code unit :: rest) = content? (Char.ofNat unit :: found) rest := by
  rw [content?.eq_def]
  simp only
  rw [if_neg (by omega), if_neg (by omega)]

theorem stringParts?_letter {letter e : Char} (h : unescaped? (some letter) = some e)
    (found : List StringPart) (rest : List Symbol) :
    stringParts? found (some '\\' :: some letter :: rest) =
      stringParts? (.char e :: found) rest := by
  have hletter : letter ≠ 'u' := by
    rintro rfl
    simp [unescaped?] at h
  rw [stringParts?.eq_def]
  simp [hletter, h]

theorem stringParts?_plain {c : Char} (hquote : c ≠ '"') (hbackslash : c ≠ '\\')
    (hcontrol : ¬ c < ' ') (found : List StringPart) (rest : List Symbol) :
    stringParts? found (some c :: rest) = stringParts? (.char c :: found) rest := by
  rw [stringParts?.eq_def]
  simp [hquote, hbackslash, hcontrol]

/-- A character is written as one part that stands for it. -/
theorem exists_part (c : Char) : ∃ part,
    (∀ found rest,
      stringParts? found ((escaped c).map some ++ rest) = stringParts? (part :: found) rest) ∧
    ∀ found rest, content? found (part :: rest) = content? (c :: found) rest := by
  by_cases hshort : c ∈ ['"', '\\', '\x08', '\x0c', '\n', '\r', '\t']
  · obtain ⟨letter, hescaped, hletter⟩ :
        ∃ letter, escaped c = ['\\', letter] ∧ unescaped? (some letter) = some c := by
      simp only [List.mem_cons, List.not_mem_nil, or_false] at hshort
      rcases hshort with rfl | rfl | rfl | rfl | rfl | rfl | rfl <;> exact ⟨_, rfl, rfl⟩
    rw [hescaped]
    exact ⟨.char c, stringParts?_letter hletter, (content?_char · c)⟩
  simp only [List.mem_cons, List.not_mem_nil, or_false, not_or] at hshort
  by_cases hcontrol : c < ' '
  · have hescaped : escaped c = ['\\', 'u', '0', '0', Nat.digitChar (c.toNat / 16),
        Nat.digitChar (c.toNat % 16)] := by
      simp [escaped, hshort, hcontrol]
    have hcode : c.toNat < 32 := hcontrol
    refine ⟨.code c.toNat, fun found rest => ?_, fun found rest => ?_⟩
    · rw [hescaped, List.map_cons, List.cons_append, stringParts?.eq_def]
      simp [codeUnit?_control hcode]
    · rw [content?_code hcode, Char.ofNat_toNat]
  · have hescaped : escaped c = [c] := by
      simp [escaped, hshort, hcontrol]
    rw [hescaped]
    exact ⟨.char c, stringParts?_plain hshort.1 hshort.2.1 hcontrol, (content?_char · c)⟩

/-! ## Strings -/

theorem exists_parts (content : List Char) : ∃ parts,
    (∀ found rest, stringParts? found ((content.flatMap escaped).map some ++ rest) =
      stringParts? (parts.reverse ++ found) rest) ∧
    ∀ found, content? found parts = some (found.reverse ++ content) := by
  induction content with
  | nil => exact ⟨[], by simp, by simp [content?]⟩
  | cons c content ih =>
    obtain ⟨part, hread, hpart⟩ := exists_part c
    obtain ⟨parts, hreads, hparts⟩ := ih
    refine ⟨part :: parts, fun found rest => ?_, fun found => ?_⟩
    · rw [List.flatMap_cons, List.map_append, List.append_assoc, hread, hreads]
      simp
    · rw [hpart, hparts]
      simp

theorem token?_quote (content : List Char) :
    token? '"' ((content.flatMap escaped ++ ['"']).map some) =
      some (.string (some content), []) := by
  obtain ⟨parts, hread, hcontent⟩ := exists_parts content
  have hparts : stringParts? [] ((content.flatMap escaped ++ ['"']).map some) =
      some (parts, []) := by
    rw [List.map_append, hread, List.map_singleton, stringParts?.eq_def]
    simp
  simp only [token?, punctuation?, ↓reduceIte, hparts, Option.map_some, hcontent]
  rfl

theorem tokens?_quote (content : List Char) :
    tokens? (symbolsOfText (quote content)) = some [.string (some content)] := by
  obtain ⟨rest, hrest⟩ : ∃ rest, rest = (content.flatMap escaped ++ ['"']).map some := ⟨_, rfl⟩
  have htoken : token? '"' rest = some (.string (some content), []) := by
    rw [hrest, token?_quote]
  have hsymbols : symbolsOfText (quote content) = some '"' :: rest := by rw [hrest]; rfl
  rw [hsymbols, tokens?, List.length_cons, tokensWithin, if_neg (by decide), htoken]
  cases rest <;> rfl

/-- **A quoted string reads back**, whatever it holds. -/
theorem read?_quote (content : List Char) :
    Node.read? (symbolsOfText (quote content)) = some (.string (some content)) := by
  rw [Node.read?, tokens?_quote]
  rfl

/-- Nothing but quotes, backslashes and control characters is escaped. -/
theorem quote_eq_of_plain {content : List Char}
    (h : ∀ c ∈ content, c ≠ '"' ∧ c ≠ '\\' ∧ ¬ c < ' ') :
    quote content = '"' :: (content ++ ['"']) := by
  have hescaped (c : Char) (hc : c ∈ content) : escaped c = [c] := by
    obtain ⟨hquote, hbackslash, hcontrol⟩ := h c hc
    have hcode (k : Char) (hk : k < ' ') : c ≠ k := by
      rintro rfl
      exact hcontrol hk
    simp [escaped, hquote, hbackslash, hcontrol, hcode _ (by decide : '\x08' < ' '),
      hcode _ (by decide : '\x0c' < ' '), hcode _ (by decide : '\n' < ' '),
      hcode _ (by decide : '\r' < ' '), hcode _ (by decide : '\t' < ' ')]
  rw [quote, List.flatMap_def, List.map_congr_left hescaped, ← List.flatMap_def,
    List.flatMap_singleton']

end Json

end Lookout
