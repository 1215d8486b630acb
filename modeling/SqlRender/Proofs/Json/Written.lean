import SqlRender.Json.Write
import SqlRender.Proofs.Json.Texts

/-!
# Written texts

What is written for a text is one of its spellings, and arrays and objects are written without gaps.
-/
namespace SqlRender.Json

theorem isHex_hexDigit {n : Nat} (h : n < 16) : IsHex (hexDigit n) n := by
  left
  interval_cases n <;> rfl

theorem spelling_writeChar (c : Char) : Spelling (writeChar c) c := by
  unfold writeChar
  split
  case h_8 hq hb _ _ _ _ _ =>
    split
    · next hc =>
      have hn : c.toNat < 32 := Char.lt_def.1 hc
      have hu : utf16 c = [c.toNat] := if_pos (by omega)
      have hx : HexEscape ['\\', 'u', '0', '0', hexDigit (c.toNat / 16), hexDigit (c.toNat % 16)]
          c.toNat :=
        ⟨'0', '0', _, _, 0, 0, _, _, .inl rfl, .inl rfl, isHex_hexDigit (by omega),
          isHex_hexDigit (by omega), rfl, by omega⟩
      have hs := @Spelling.units c [_] (by rw [hu]; exact .cons hx .nil)
      simpa using hs
    · next hc => exact .plain ⟨hq, hb, Char.not_lt.1 hc⟩
  all_goals exact .letter (by decide)

theorem quoted_writeText (s : String) : Quoted (writeText s).toList s := by
  refine ⟨s.toList.map writeChar, ?_, ?_⟩
  · rw [List.forall₂_map_left_iff, List.forall₂_same]
    exact fun c _ => spelling_writeChar c
  · rw [writeText, String.toList_ofList, List.flatMap_def]
    simp

theorem toList_writeArray (elements : List String) : (writeArray elements).toList =
    '[' :: [','].intercalate (elements.map String.toList) ++ [']'] := by
  simp [writeArray]

def memberText (name : String) (value : List Char) : List Char :=
  (writeText name).toList ++ ':' :: value

theorem toList_writeObject (members : List (String × String)) : (writeObject members).toList =
    '{' :: [','].intercalate (members.map fun m => memberText m.1 m.2.toList) ++ ['}'] := by
  have hm : (String.toList ∘ fun m : String × String => writeMember m.1 m.2) =
      fun m => memberText m.1 m.2.toList := by
    funext m
    simp [writeMember, memberText]
  simp [writeObject, hm]

end SqlRender.Json
