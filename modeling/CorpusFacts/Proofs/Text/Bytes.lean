import CorpusFacts.Syntax.SourceUnit
import Mathlib.Data.List.Basic
import Mathlib.Data.String.Basic

/-!
# Bytes of a text

The bytes and the line breaks of a text add up over its parts. A part is found again from the number
of bytes before it and its own.
-/

namespace CorpusFacts

namespace Text

@[simp] theorem byteLength_nil : byteLength [] = 0 := rfl

/-- Bytes are counted on from any number. -/
theorem foldl_utf8Size (text : List Char) (start : Nat) :
    text.foldl (fun length c => length + c.utf8Size) start = start + byteLength text := by
  induction text generalizing start with
  | nil => rfl
  | cons c text ih =>
    have hrest : byteLength (c :: text) = 0 + c.utf8Size + byteLength text := ih (0 + c.utf8Size)
    rw [List.foldl_cons, ih, hrest]
    omega

/-- Every character adds its own bytes. -/
@[simp] theorem byteLength_cons (c : Char) (text : List Char) :
    byteLength (c :: text) = c.utf8Size + byteLength text := by
  have h : byteLength (c :: text) = 0 + c.utf8Size + byteLength text :=
    foldl_utf8Size text (0 + c.utf8Size)
  omega

/-- The bytes of two texts add up. -/
@[simp] theorem byteLength_append (first second : List Char) :
    byteLength (first ++ second) = byteLength first + byteLength second := by
  induction first with
  | nil => simp
  | cons c first ih =>
    rw [List.cons_append, byteLength_cons, byteLength_cons, ih]
    omega

/-- A text with a character has a byte. -/
theorem byteLength_pos {text : List Char} (h : text ≠ []) : 0 < byteLength text := by
  obtain ⟨c, rest, rfl⟩ := List.exists_cons_of_ne_nil h
  have := c.utf8Size_pos
  rw [byteLength_cons]
  omega

/-- Only the empty text has no bytes. -/
theorem byteLength_eq_zero_iff {text : List Char} : byteLength text = 0 ↔ text = [] := by
  refine ⟨fun h => ?_, fun h => by rw [h, byteLength_nil]⟩
  by_contra hne
  have := byteLength_pos hne
  omega

@[simp] theorem newlines_nil : newlines [] = 0 := rfl

/-- The line breaks of two texts add up. -/
@[simp] theorem newlines_append (first second : List Char) :
    newlines (first ++ second) = newlines first + newlines second :=
  List.count_append

end Text

/-- What follows a part of a text is what is left without its bytes. -/
theorem dropBytes_append (part rest : List Char) :
    dropBytes (Text.byteLength part) (part ++ rest) = some rest := by
  induction part with
  | nil => rw [Text.byteLength_nil, List.nil_append, dropBytes]
  | cons c part ih =>
    obtain ⟨count, hcount⟩ : ∃ count, Text.byteLength (c :: part) = count + 1 :=
      ⟨_, (Nat.succ_pred_eq_of_pos (Text.byteLength_pos (List.cons_ne_nil c part))).symm⟩
    have hsize := Text.byteLength_cons c part
    rw [hcount, List.cons_append, dropBytes, if_pos (by omega)]
    rwa [show count + 1 - c.utf8Size = Text.byteLength part by omega]

/-- The bytes of a part of a text at its start are that part. -/
theorem takeBytes_append (part rest : List Char) :
    takeBytes (Text.byteLength part) (part ++ rest) = some part := by
  induction part with
  | nil => rw [Text.byteLength_nil, takeBytes]
  | cons c part ih =>
    obtain ⟨count, hcount⟩ : ∃ count, Text.byteLength (c :: part) = count + 1 :=
      ⟨_, (Nat.succ_pred_eq_of_pos (Text.byteLength_pos (List.cons_ne_nil c part))).symm⟩
    have hsize := Text.byteLength_cons c part
    rw [hcount, List.cons_append, takeBytes, if_pos (by omega),
      show count + 1 - c.utf8Size = Text.byteLength part by omega, ih]
    rfl

/-- A part of a text is found from the bytes before it and its own. -/
theorem sliceBytes_middle (before part after : List Char) :
    sliceBytes (before ++ part ++ after) (Text.byteLength before)
      (Text.byteLength before + Text.byteLength part) = part := by
  have htake := takeBytes_append part after
  rw [sliceBytes, if_neg (by omega), List.append_assoc, dropBytes_append, Option.bind_some,
    Nat.add_sub_cancel_left, htake, Option.getD_some]

/-! ## The order of bytes

Characters have the order of their bytes in UTF-8, so texts do, and so do lists of texts.
-/

namespace Text

/-- The bytes of a text in UTF-8. -/
def utf8 (text : String) : List UInt8 :=
  text.toUTF8.data.toList

/-- The bytes of a text are those of its characters. -/
theorem utf8_eq_flatMap (text : String) :
    utf8 text = text.toList.flatMap String.utf8EncodeChar := by
  have htext : text.toUTF8 = text.toList.utf8Encode := by
    rw [← String.toByteArray_ofList, String.ofList_toList]
    rfl
  rw [utf8, htext, List.utf8Encode, List.data_toByteArray]

/-- A smaller character has smaller bytes, whatever follows. -/
theorem utf8EncodeChar_append_lt {c d : Char} (h : c < d) (rest others : List UInt8) :
    String.utf8EncodeChar c ++ rest < String.utf8EncodeChar d ++ others := by
  have hval : c.val.toNat < d.val.toNat := UInt32.lt_iff_toNat_lt.mp h
  have hbound : d.val.toNat < 0x110000 := by
    have hvalid : d.val.toNat.isValidChar := d.valid
    rcases hvalid with h | ⟨-, h⟩ <;> omega
  unfold String.utf8EncodeChar
  generalize c.val.toNat = v at hval
  generalize d.val.toNat = w at hval hbound
  simp only
  -- With as many bytes the first different one decides, and otherwise the first one.
  split_ifs <;>
    simp (disch := omega) only [List.cons_append, List.nil_append, List.cons_lt_cons_iff,
      UInt8.lt_iff_toNat_lt, ← UInt8.toNat_inj, UInt8.toNat_ofNat', Nat.mod_eq_of_lt] <;>
    omega

/-- A smaller text has smaller bytes. -/
theorem utf8_lt {first second : String} (h : first < second) : utf8 first < utf8 second := by
  rw [String.lt_iff_toList_lt] at h
  rw [utf8_eq_flatMap, utf8_eq_flatMap]
  generalize first.toList = text at h
  generalize second.toList = other at h
  induction text generalizing other with
  | nil =>
    cases other with
    | nil => exact absurd h (List.not_lt_nil _)
    | cons d other =>
      have hsize : (String.utf8EncodeChar d).length = d.utf8Size := String.length_utf8EncodeChar d
      have hbyte : String.utf8EncodeChar d ≠ [] := by
        rintro hnil
        rw [hnil, List.length_nil] at hsize
        exact absurd d.utf8Size_pos (by omega)
      obtain ⟨byte, later, hbytes⟩ := List.exists_cons_of_ne_nil hbyte
      rw [List.flatMap_nil, List.flatMap_cons, hbytes]
      exact List.nil_lt_cons _ _
  | cons c text ih =>
    cases other with
    | nil => exact absurd h (List.not_lt_nil _)
    | cons d other =>
      rw [List.flatMap_cons, List.flatMap_cons]
      rcases List.cons_lt_cons_iff.mp h with hc | ⟨rfl, hrest⟩
      · exact utf8EncodeChar_append_lt hc _ _
      · exact List.append_left_lt (ih other hrest)

/-- A smaller list of texts has smaller bytes. -/
theorem map_utf8_lt {first second : List String} (h : first < second) :
    first.map utf8 < second.map utf8 := by
  induction first generalizing second with
  | nil =>
    cases second with
    | nil => exact absurd h (List.not_lt_nil _)
    | cons name second => exact List.nil_lt_cons _ _
  | cons name first ih =>
    cases second with
    | nil => exact absurd h (List.not_lt_nil _)
    | cons other second =>
      rcases List.cons_lt_cons_iff.mp h with hname | ⟨rfl, hrest⟩
      · exact List.cons_lt_cons_iff.mpr (Or.inl (utf8_lt hname))
      · exact List.cons_lt_cons_iff.mpr (Or.inr ⟨rfl, ih hrest⟩)

end Text

end CorpusFacts
