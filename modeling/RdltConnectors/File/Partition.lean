import RdltConnectors.File.Layout

/-!
# Partition directories

The directory of a partition value is the value's bytes, most of them as they are and the
others in escapes. What an escape stands for does not depend on where it is, so a directory is
read back byte by byte.
-/
namespace FileLoad

/-! ## Reading a directory back -/

def hexValue (c : Char) : Nat := if c.toNat < 65 then c.toNat - 48 else c.toNat - 55

/-- The bytes that an encoded value stands for. -/
def decodedBytes : List Char → List Nat
  | [] => []
  | '%' :: high :: low :: rest => (16 * hexValue high + hexValue low) :: decodedBytes rest
  | c :: rest => c.toNat :: decodedBytes rest

def decodePartitionValue (component : String) : Option String :=
  if component = "__empty__" then some ""
  else String.fromUTF8? ((decodedBytes component.toList).map UInt8.ofNat).toByteArray

/-- A device's name, with any extension and in any case. -/
def DeviceName (component : String) : Prop :=
  ∃ reserved ∈ windowsReservedBasenames,
    reserved.toList = (component.toList.takeWhile (· ≠ '.')).map Char.toUpper

theorem hexValue_hexDigit : ∀ n < 16, hexValue (hexDigit n) = n := by decide

theorem decodedBytes_plain {c : Char} (h : c ≠ '%') (rest : List Char) :
    decodedBytes (c :: rest) = c.toNat :: decodedBytes rest := by
  rw [decodedBytes]
  rintro high low more he
  cases he
  exact absurd rfl h

theorem decodedBytes_escape {byte : Nat} (h : byte < 256) (rest : List Char) :
    decodedBytes (percentEncoded byte ++ rest) = byte :: decodedBytes rest := by
  rw [percentEncoded]
  simp only [List.cons_append, List.nil_append, decodedBytes]
  rw [hexValue_hexDigit _ (by omega), hexValue_hexDigit _ (by omega)]
  congr 1
  omega

theorem survives_ascii {position byte : Nat} (h : survives position byte = true) :
    45 ≤ byte ∧ byte < 128 ∧ byte ≠ 47 := by
  simp only [survives, isAsciiAlphanumeric, Bool.or_eq_true, Bool.and_eq_true, decide_eq_true_eq,
    beq_iff_eq] at h
  omega

theorem toNat_ofNat_ascii {byte : Nat} (h : byte < 128) : (Char.ofNat byte).toNat = byte := by
  revert byte
  decide

/-- Whatever the place, a byte's encoding is read back as the byte. -/
theorem decodedBytes_encodeByte {position byte : Nat} (h : byte < 256) (rest : List Char) :
    decodedBytes (encodeByte position byte ++ rest) = byte :: decodedBytes rest := by
  rw [encodeByte]
  split
  · rename_i hsurvives
    have hascii := survives_ascii hsurvives
    have hnat := toNat_ofNat_ascii hascii.2.1
    rw [List.singleton_append, decodedBytes_plain, hnat]
    intro he
    rw [he] at hnat
    have hpercent : '%'.toNat = 37 := rfl
    omega
  · exact decodedBytes_escape h rest

theorem decodedBytes_encoded {bytes : List Nat} (h : ∀ byte ∈ bytes, byte < 256) (start : Nat) :
    decodedBytes ((bytes.zipIdx start).flatMap fun (byte, position) => encodeByte position byte) =
      bytes := by
  induction bytes generalizing start with
  | nil => rfl
  | cons byte bytes ih =>
    rw [List.zipIdx_cons, List.flatMap_cons, decodedBytes_encodeByte (h byte List.mem_cons_self),
      ih (fun other hother => h other (List.mem_cons_of_mem _ hother))]

/-! ## What an encoded value starts with -/

theorem survives_front {byte : Nat} (h : survives 0 byte = true) : byte ≠ 95 ∧ byte ≠ 46 := by
  simp only [survives, isAsciiAlphanumeric, Bool.or_eq_true, Bool.and_eq_true, decide_eq_true_eq,
    beq_iff_eq, bne_self_eq_false, Bool.false_eq_true, false_and, or_false] at h
  omega

/-- A name's front. -/
def Plain (encoded : List Char) : Prop := encoded.head? ≠ some '_' ∧ encoded.head? ≠ some '.'

theorem plain_percentEncoded (byte : Nat) (rest : List Char) :
    Plain (percentEncoded byte ++ rest) := by
  constructor <;> simp [percentEncoded]

theorem plain_encodeByte (byte : Nat) (rest : List Char) : Plain (encodeByte 0 byte ++ rest) := by
  rw [encodeByte]
  split
  · rename_i hsurvives
    have hfront := survives_front hsurvives
    have hnat := toNat_ofNat_ascii (survives_ascii hsurvives).2.1
    have hne (c : Char) (hc : byte ≠ c.toNat) : Char.ofNat byte ≠ c := by
      rintro rfl
      exact hc hnat.symm
    constructor
    · simpa using hne '_' hfront.1
    · simpa using hne '.' hfront.2
  · exact plain_percentEncoded byte rest

/-! ## Device names -/

def reservedBasename (encoded : List Char) : Bool :=
  windowsReservedBasenames.any fun reserved =>
    reserved.toList = (encoded.takeWhile (· ≠ '.')).map Char.toUpper

theorem escape_reserved {first : Char} {rest : List Char}
    (h : reservedBasename (first :: rest) = true) :
    escapeIfWindowsReserved (first :: rest) = percentEncoded first.toNat ++ rest := by
  unfold escapeIfWindowsReserved
  exact if_pos h

theorem escape_unreserved {encoded : List Char} (h : reservedBasename encoded = false) :
    escapeIfWindowsReserved encoded = encoded := by
  unfold escapeIfWindowsReserved
  exact if_neg (by rw [← reservedBasename, h]; exact Bool.false_ne_true)

theorem reserved_heads {reserved : String} (h : reserved ∈ windowsReservedBasenames) :
    ∃ letter rest, reserved.toList = letter :: rest ∧ letter ≠ '%' ∧ letter.toNat < 91 := by
  simp only [windowsReservedBasenames, List.mem_cons, List.not_mem_nil, or_false] at h
  obtain rfl | rfl | rfl | rfl | rfl | rfl | rfl | rfl | rfl | rfl | rfl | rfl | rfl | rfl | rfl |
    rfl | rfl | rfl | rfl | rfl | rfl | rfl := h <;> exact ⟨_, _, rfl, by decide, by decide⟩

theorem toNat_of_toUpper {c : Char} (h : c.toUpper.toNat < 91) : c.toNat < 128 := by
  rw [Char.toUpper] at h
  split at h
  · rename_i hlower
    have hle : c.val ≤ 'z'.val := hlower.2
    have hz : c.toNat ≤ 122 := hle
    omega
  · omega

/-- The first letter of a device's name is a plain one. -/
theorem reserved_first {first : Char} {rest : List Char}
    (h : reservedBasename (first :: rest) = true) : first ≠ '%' ∧ first.toNat < 128 := by
  obtain ⟨reserved, hmem, heq⟩ := List.any_eq_true.1 h
  have hname := of_decide_eq_true heq
  obtain ⟨letter, more, hhead, hpercent, hletter⟩ := reserved_heads hmem
  rw [hhead, List.takeWhile_cons] at hname
  split at hname
  · rw [List.map_cons, List.cons.injEq] at hname
    have hupper := hname.1
    constructor
    · rintro rfl
      exact hpercent hupper
    · exact toNat_of_toUpper (hupper ▸ hletter)
  · cases hname

theorem unreserved_percent (byte : Nat) (rest : List Char) :
    reservedBasename (percentEncoded byte ++ rest) = false := by
  rw [Bool.eq_false_iff]
  intro h
  exact (reserved_first h).1 rfl

/-- Escaping a device's name changes nothing of what is read back. -/
theorem decodedBytes_escapeReserved (encoded : List Char) :
    decodedBytes (escapeIfWindowsReserved encoded) = decodedBytes encoded := by
  by_cases hreserved : reservedBasename encoded = true
  · cases encoded with
    | nil => exact absurd hreserved (by decide)
    | cons first rest =>
      obtain ⟨hpercent, hascii⟩ := reserved_first hreserved
      rw [escape_reserved hreserved, decodedBytes_escape (by omega), decodedBytes_plain hpercent]
  · rw [escape_unreserved (Bool.eq_false_iff.2 hreserved)]

theorem unreserved_escape (encoded : List Char) :
    reservedBasename (escapeIfWindowsReserved encoded) = false := by
  by_cases hreserved : reservedBasename encoded = true
  · cases encoded with
    | nil => exact absurd hreserved (by decide)
    | cons first rest => rw [escape_reserved hreserved, unreserved_percent]
  · rw [escape_unreserved (Bool.eq_false_iff.2 hreserved)]
    exact Bool.eq_false_iff.2 hreserved

theorem plain_escape {encoded : List Char} (h : Plain encoded) :
    Plain (escapeIfWindowsReserved encoded) := by
  by_cases hreserved : reservedBasename encoded = true
  · cases encoded with
    | nil => exact absurd hreserved (by decide)
    | cons first rest =>
      rw [escape_reserved hreserved]
      exact plain_percentEncoded first.toNat rest
  · rwa [escape_unreserved (Bool.eq_false_iff.2 hreserved)]

theorem deviceName_iff (component : String) :
    DeviceName component ↔ reservedBasename component.toList = true := by
  simp [DeviceName, reservedBasename]

/-! ## The encoding of a value -/

/-- The characters of a value before the escape of a device's name. -/
def encodedChars (value : String) : List Char :=
  (utf8Bytes value).zipIdx.flatMap fun (byte, position) => encodeByte position byte

theorem encode_toList {value : String} (h : value ≠ "") :
    (encodePartitionValue value).toList = escapeIfWindowsReserved (encodedChars value) := by
  rw [encodePartitionValue, if_neg (by simpa using h), String.toList_ofList, encodedChars]

theorem utf8Bytes_lt {value : String} {byte : Nat} (h : byte ∈ utf8Bytes value) : byte < 256 := by
  obtain ⟨word, -, rfl⟩ := List.mem_map.1 h
  exact word.toNat_lt

theorem utf8Bytes_back (value : String) :
    ((utf8Bytes value).map UInt8.ofNat).toByteArray = value.toUTF8 := by
  have hmap : (utf8Bytes value).map UInt8.ofNat = value.toList.flatMap String.utf8EncodeChar := by
    rw [utf8Bytes, List.map_map]
    exact List.map_id'' (fun word => UInt8.ofNat_toNat) _
  rw [hmap]
  exact String.utf8Encode_toList

theorem fromUTF8_toUTF8 (value : String) : String.fromUTF8? value.toUTF8 = some value := by
  have hvalid : value.toUTF8.IsValidUTF8 := value.isValidUTF8
  rw [String.fromUTF8?, dif_pos hvalid]
  rfl

theorem plain_encodedChars (value : String) : Plain (encodedChars value) := by
  rw [encodedChars]
  cases hbytes : utf8Bytes value with
  | nil => constructor <;> simp
  | cons byte bytes =>
    rw [List.zipIdx_cons, List.flatMap_cons]
    exact plain_encodeByte byte _

theorem encode_ne_empty {value : String} (h : value ≠ "") :
    encodePartitionValue value ≠ "__empty__" := by
  intro he
  have hplain := plain_escape (plain_encodedChars value)
  rw [← encode_toList h, he] at hplain
  exact hplain.1 rfl

theorem decode_encode (value : String) :
    decodePartitionValue (encodePartitionValue value) = some value := by
  by_cases hempty : value = ""
  · subst hempty
    rfl
  · rw [decodePartitionValue, if_neg (encode_ne_empty hempty), encode_toList hempty,
      decodedBytes_escapeReserved, encodedChars,
      decodedBytes_encoded (fun byte hbyte => utf8Bytes_lt hbyte), utf8Bytes_back, fromUTF8_toUTF8]

theorem encode_inj {value value' : String}
    (h : encodePartitionValue value = encodePartitionValue value') : value = value' := by
  have hread := decode_encode value
  rw [h, decode_encode] at hread
  exact (Option.some.inj hread).symm

theorem encode_plain {value : String} (h : value ≠ "") :
    Plain (encodePartitionValue value).toList := by
  rw [encode_toList h]
  exact plain_escape (plain_encodedChars value)

theorem encode_not_device (value : String) : ¬ DeviceName (encodePartitionValue value) := by
  rw [deviceName_iff]
  by_cases hempty : value = ""
  · subst hempty
    decide
  · rw [encode_toList hempty, unreserved_escape]
    exact Bool.false_ne_true

theorem encode_ne_null (value : String) : encodePartitionValue value ≠ nullPartition := by
  by_cases hempty : value = ""
  · subst hempty
    decide
  · intro he
    have hplain := encode_plain hempty
    rw [he] at hplain
    exact hplain.1 rfl

/-- The empty value has a directory of its own, the only one with `_` in front. -/
theorem empty_value_leads_underscore :
    (encodePartitionValue "").toList.head? = some '_' := by decide

/-- A partition value's directory is one path segment that no other value has, that is no
device's name and not the NULL partition's. Only the empty value's begins with `_`, none
begins with `.`. -/
theorem partition_directory :
    (∀ value,
      '/' ∉ (encodePartitionValue value).toList ∧
      ((encodePartitionValue value).toList.head? = some '_' ↔ value = "") ∧
      (encodePartitionValue value).toList.head? ≠ some '.' ∧
      encodePartitionValue value ≠ nullPartition ∧
      ¬ DeviceName (encodePartitionValue value) ∧
      decodePartitionValue (encodePartitionValue value) = some value) ∧
    encodePartitionValue "" = "__empty__" ∧ Function.Injective encodePartitionValue := by
  constructor
  · intro value
    by_cases hempty : value = ""
    · subst hempty
      exact ⟨by decide, by decide, by decide, encode_ne_null "", encode_not_device "", rfl⟩
    · have hplain := encode_plain hempty
      exact ⟨slash_not_mem_encodePartitionValue value,
        ⟨fun h => absurd h hplain.1, fun h => absurd h hempty⟩, hplain.2, encode_ne_null value,
        encode_not_device value, decode_encode value⟩
  · exact ⟨rfl, fun _ _ => encode_inj⟩

end FileLoad
