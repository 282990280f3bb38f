import Mathlib.Data.List.Basic
import SchemaAtlas.Schema.Reference

namespace SchemaAtlas
namespace Pointer

-- A pointer that is written from tokens reads back as those tokens.

theorem unescapeChars_escapeChars (cs : List Char) : unescapeChars (escapeChars cs) = cs := by
  induction cs using escapeChars.induct with
  | case1 => rfl
  | case2 rest ih => simp [escapeChars, unescapeChars, ih]
  | case3 rest ih => simp [escapeChars, unescapeChars, ih]
  | case4 c rest tilde slash ih =>
    rw [escapeChars, unescapeChars, ih]
    · exact fun _ same _ => tilde same
    · exact fun _ same _ => tilde same
    · exact tilde
    · exact slash

theorem slash_not_mem_escapeChars (cs : List Char) : '/' ∉ escapeChars cs := by
  induction cs using escapeChars.induct with
  | case1 => simp [escapeChars]
  | case2 rest ih => simpa [escapeChars] using ih
  | case3 rest ih => simpa [escapeChars] using ih
  | case4 c rest tilde slash ih =>
    rw [escapeChars]
    · simp only [List.mem_cons, not_or]
      exact ⟨fun same => slash same.symm, ih⟩
    · exact tilde
    · exact slash

theorem escapeChars_ne_nil (some : cs ≠ []) : escapeChars cs ≠ [] := by
  cases cs using escapeChars.fun_cases with
  | case1 => exact absurd rfl some
  | case2 rest => simp [escapeChars]
  | case3 rest => simp [escapeChars]
  | case4 c rest tilde slash =>
    rw [escapeChars]
    · simp
    · exact tilde
    · exact slash

theorem unescape_escape (token : String) : unescape (String.ofList (escapeChars token.toList)) = token := by
  simp [unescape, unescapeChars_escapeChars]

theorem splitChars_ne_nil (separator : Char) (cs : List Char) : splitChars separator cs ≠ [] := by
  induction cs with
  | nil => simp [splitChars]
  | cons c rest ih =>
    unfold splitChars
    split
    · simp
    · split <;> simp

theorem splitChars_piece (outside : separator ∉ piece) : splitChars separator piece = [piece] := by
  induction piece with
  | nil => rfl
  | cons c rest ih =>
    obtain ⟨other, outside⟩ := not_or.mp (mt List.mem_cons.mpr outside)
    simp [splitChars, ih outside, Ne.symm other]

theorem splitChars_append (outside : separator ∉ piece) (rest : List Char) :
    splitChars separator (piece ++ separator :: rest) = piece :: splitChars separator rest := by
  induction piece with
  | nil =>
    have some := splitChars_ne_nil separator rest
    cases same : splitChars separator rest with
    | nil => exact absurd same some
    | cons first others => simp [splitChars, same]
  | cons c piece ih =>
    obtain ⟨other, outside⟩ := not_or.mp (mt List.mem_cons.mpr outside)
    simp [splitChars, ih outside, Ne.symm other]

theorem toList_render (tokens : List String) :
    (render tokens).toList = tokens.flatMap fun token => '/' :: escapeChars token.toList := by
  simp [render, escape, String.toList_join, List.flatMap_map]

theorem splitChars_render (first : String) (tokens : List String) :
    splitChars '/' (escapeChars first.toList ++ (render tokens).toList) =
      (first :: tokens).map fun token => escapeChars token.toList := by
  induction tokens generalizing first with
  | nil => simpa [toList_render] using splitChars_piece (slash_not_mem_escapeChars first.toList)
  | cons token rest ih =>
    have here := splitChars_append (slash_not_mem_escapeChars first.toList)
      (escapeChars token.toList ++ (render rest).toList)
    rw [ih token] at here
    simpa [toList_render] using here

theorem read?_render (tokens : List String) : read? (render tokens) = some tokens := by
  cases tokens with
  | nil => rfl
  | cons token rest =>
    have pieces := splitChars_render token rest
    have written : (render (token :: rest)).toList = '/' :: (escapeChars token.toList ++ (render rest).toList) := by
      simp [toList_render]
    unfold read?
    rw [written]
    change some ((splitChars '/' (escapeChars token.toList ++ (render rest).toList)).map fun piece =>
      unescape (String.ofList piece)) = some (token :: rest)
    rw [pieces]
    simp [Function.comp_def, unescape_escape]

theorem lookup?_render (root : Json) (tokens : List String) : lookup? root (render tokens) = find? root tokens := by
  simp [lookup?, read?_render]

theorem find?_append (value : Json) (front back : List String) :
    find? value (front ++ back) = (find? value front).bind fun inner => find? inner back := by
  induction front generalizing value with
  | nil => rfl
  | cons token rest ih => simp [find?, ih, Option.bind_assoc]

theorem digitChar_ne_zero (positive : d ≠ 0) (small : d < 10) : d.digitChar ≠ '0' := by
  have all : ∀ d < 10, d ≠ 0 → d.digitChar ≠ '0' := by decide
  exact all d small positive

theorem head?_toDigits (positive : n ≠ 0) : (Nat.toDigits 10 n).head? ≠ some '0' := by
  induction n using Nat.strongRecOn with
  | ind n ih =>
    by_cases small : n < 10
    · rw [Nat.toDigits_of_lt_base small]
      simp only [List.head?_cons, ne_eq, Option.some.injEq]
      exact digitChar_ne_zero positive small
    · have smaller := ih (n / 10) (by omega) (by omega)
      rw [Nat.toDigits_of_base_le (by decide) (by omega), List.head?_append_of_ne_nil _ Nat.toDigits_ne_nil]
      exact smaller

theorem index?_toString (n : Nat) : index? (toString n) = some n := by
  have digits : (toString n).toList = Nat.toDigits 10 n := by simp
  have decimal : (Nat.toDigits 10 n).all (fun c => '0' ≤ c && c ≤ '9') = true := by
    simp only [List.all_eq_true]
    intro c listed
    have digit := Nat.isDigit_of_mem_toDigits (by decide) (by decide) listed
    simpa [Char.isDigit, Char.le_def] using digit
  have value : (Nat.toDigits 10 n).foldl (fun n c => n * 10 + (c.toNat - 48)) 0 = n := by
    have whole := Nat.ofDigitChars_ten_toDigits (n := n)
    rw [Nat.ofDigitChars_eq_foldl] at whole
    simpa [Nat.mul_comm] using whole
  have leading : ¬((Nat.toDigits 10 n).head? = some '0' ∧ (Nat.toDigits 10 n).length > 1) := by
    rintro ⟨zero, long⟩
    by_cases positive : n = 0
    · subst positive
      simp at long
    · exact head?_toDigits positive zero
  unfold index?
  dsimp only
  rw [digits, decimal, value, if_neg leading]
  simp

end Pointer

-- The reference to a schema that is written reads back. An empty name has no reference.
theorem ofText?_schemaRef (named : name ≠ "") : ComponentRef.ofText? (schemaRef name) = some (.schema name) := by
  have written : (schemaRef name).toList = "#/components/schemas/".toList ++ Pointer.escapeChars name.toList := by
    simp [schemaRef, ComponentRef.schema, ComponentRef.text, ComponentRef.pointer, Section.segment, Pointer.escape]
  have characters : Pointer.escapeChars name.toList ≠ [] := Pointer.escapeChars_ne_nil (by simpa using named)
  have outside : (Pointer.escapeChars name.toList).contains '/' = false := by
    simpa using Pointer.slash_not_mem_escapeChars name.toList
  have read : ComponentRef.target? ("schemas/".toList ++ Pointer.escapeChars name.toList) = some (.schemas, name) := by
    unfold ComponentRef.target?
    change (if ("schemas".toList = [] || Pointer.escapeChars name.toList = [] ||
        (Pointer.escapeChars name.toList).contains '/' || !"schemas".toList.all ComponentRef.isAsciiLetter) = true
      then none
      else some (Section.schemas, Pointer.unescape (String.ofList (Pointer.escapeChars name.toList)))) = _
    rw [outside, Pointer.unescape_escape]
    simp [characters, ComponentRef.isAsciiLetter]
  unfold ComponentRef.ofText?
  rw [written]
  change (ComponentRef.target? ("schemas/".toList ++ Pointer.escapeChars name.toList)).map _ = _
  rw [read]
  rfl

theorem schemaNameOf?_iff : schemaNameOf? text = some name ↔ ComponentRef.ofText? text = some (.schema name) := by
  unfold schemaNameOf? ComponentRef.schema
  constructor
  · intro decoded
    split at decoded
    · rename_i found
      cases decoded
      exact found
    · cases decoded
  · intro found
    rw [found]

theorem schemaNameOf?_schemaRef (named : name ≠ "") : schemaNameOf? (schemaRef name) = some name :=
  schemaNameOf?_iff.mpr (ofText?_schemaRef named)

end SchemaAtlas
