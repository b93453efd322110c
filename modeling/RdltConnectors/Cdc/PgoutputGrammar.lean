import Mathlib
import RdltConnectors.Cdc.Pgoutput

/-!
# What the message parser accepts

The messages as the server sends them, with the fields the parser drops, and their bytes. The
parser takes the bytes of a message apart into what is kept of it, takes nothing else, and no
message's bytes continue another's.
-/
namespace Cdc

open Grammar hiding take
open Words Pgoutput

/-! ## Messages as they are sent -/

def nameBytes (name : String) : List UInt8 := name.toUTF8.data.toList

/-- A name and its terminator. -/
def putName (name : String) : List UInt8 := nameBytes name ++ [0]

structure SentColumn where
  flags : UInt8
  name : String
  typeOid : Nat
  typeModifier : Int

/-- The old row of a change, by its key or whole. -/
inductive OldTuple where
  | key (tuple : TupleData)
  | full (tuple : TupleData)

inductive SentMessage where
  | begin (finalLsn commitTimestamp transactionId : Nat)
  | commit (flags : UInt8) (commitLsn endLsn commitTimestamp : Nat)
  | origin (lsn : Nat) (name : String)
  | relation (id : Nat) (namespace_ name : String) (replicaIdentity : UInt8)
      (columns : List SentColumn)
  | type (oid : Nat) (namespace_ name : String)
  | insert (id : Nat) (new : TupleData)
  | update (id : Nat) (old : Option OldTuple) (new : TupleData)
  | delete (id : Nat) (old : OldTuple)
  | truncate (flags : UInt8) (ids : List Nat)

def OldTuple.tuple : OldTuple → TupleData
  | .key tuple => tuple
  | .full tuple => tuple

/-- What the parser keeps of a message. -/
def SentMessage.message : SentMessage → Message
  | .begin _ _ _ => .begin
  | .commit _ _ _ _ => .commit
  | .origin _ _ => .origin
  | .relation id namespace_ name _ columns =>
    .relation ⟨id, namespace_, name, columns.map fun column => ⟨column.name⟩⟩
  | .type _ _ _ => .type
  | .insert id new => .insert id new
  | .update id old new => .update id (old.map OldTuple.tuple) new
  | .delete id old => .delete id old.tuple
  | .truncate _ ids => .truncate ids

/-! ## Their bytes -/

def valueTag : TupleValue → UInt8
  | .null => byte 'n'
  | .unchangedToast => byte 'u'
  | .text _ => byte 't'

def valueFields : TupleValue → List UInt8
  | .text bytes => put 4 bytes.data.toList.length ++ bytes.data.toList
  | _ => []

def putValue (value : TupleValue) : List UInt8 := valueTag value :: valueFields value

def putTuple (tuple : TupleData) : List UInt8 :=
  put 2 tuple.values.length ++ tuple.values.flatMap putValue

def putColumn (column : SentColumn) : List UInt8 :=
  column.flags :: (putName column.name ++ (put 4 column.typeOid ++ putI32 column.typeModifier))

def OldTuple.put : OldTuple → List UInt8
  | .key tuple => byte 'K' :: putTuple tuple
  | .full tuple => byte 'O' :: putTuple tuple

def SentMessage.tag : SentMessage → UInt8
  | .begin _ _ _ => byte 'B'
  | .commit _ _ _ _ => byte 'C'
  | .origin _ _ => byte 'O'
  | .relation _ _ _ _ _ => byte 'R'
  | .type _ _ _ => byte 'Y'
  | .insert _ _ => byte 'I'
  | .update _ _ _ => byte 'U'
  | .delete _ _ => byte 'D'
  | .truncate _ _ => byte 'T'

def SentMessage.fields : SentMessage → List UInt8
  | .begin finalLsn commitTimestamp transactionId =>
    put 8 finalLsn ++ (put 8 commitTimestamp ++ put 4 transactionId)
  | .commit flags commitLsn endLsn commitTimestamp =>
    [flags] ++ (put 8 commitLsn ++ (put 8 endLsn ++ put 8 commitTimestamp))
  | .origin lsn name => put 8 lsn ++ putName name
  | .relation id namespace_ name replicaIdentity columns =>
    put 4 id ++ (putName namespace_ ++ (putName name ++
      ([replicaIdentity] ++ (put 2 columns.length ++ columns.flatMap putColumn))))
  | .type oid namespace_ name => put 4 oid ++ (putName namespace_ ++ putName name)
  | .insert id new => put 4 id ++ byte 'N' :: putTuple new
  | .update id none new => put 4 id ++ byte 'N' :: putTuple new
  | .update id (some old) new => put 4 id ++ (old.put ++ byte 'N' :: putTuple new)
  | .delete id old => put 4 id ++ old.put
  | .truncate flags ids => put 4 ids.length ++ ([flags] ++ ids.flatMap (put 4))

/-- The bytes of a message. -/
def SentMessage.encode (sent : SentMessage) : List UInt8 := sent.tag :: sent.fields

/-! ## Fields that fit -/

/-- A name that a terminator can end. -/
def NameFits (name : String) : Prop := 0 ∉ nameBytes name

def ValueFits : TupleValue → Prop
  | .text bytes => bytes.data.toList.length < 256 ^ 4
  | _ => True

def TupleFits (tuple : TupleData) : Prop :=
  tuple.values.length < 256 ^ 2 ∧ ∀ value ∈ tuple.values, ValueFits value

def ColumnFits (column : SentColumn) : Prop :=
  NameFits column.name ∧ column.typeOid < 256 ^ 4

/-- Every field of the message fits where it is sent. -/
def SentMessage.Fits : SentMessage → Prop
  | .begin finalLsn commitTimestamp transactionId =>
    finalLsn < 256 ^ 8 ∧ commitTimestamp < 256 ^ 8 ∧ transactionId < 256 ^ 4
  | .commit _ commitLsn endLsn commitTimestamp =>
    commitLsn < 256 ^ 8 ∧ endLsn < 256 ^ 8 ∧ commitTimestamp < 256 ^ 8
  | .origin lsn name => lsn < 256 ^ 8 ∧ NameFits name
  | .relation id namespace_ name _ columns =>
    id < 256 ^ 4 ∧ NameFits namespace_ ∧ NameFits name ∧ columns.length < 256 ^ 2 ∧
      ∀ column ∈ columns, ColumnFits column
  | .type oid namespace_ name => oid < 256 ^ 4 ∧ NameFits namespace_ ∧ NameFits name
  | .insert id new => id < 256 ^ 4 ∧ TupleFits new
  | .update id old new =>
    id < 256 ^ 4 ∧ (∀ image ∈ old, TupleFits image.tuple) ∧ TupleFits new
  | .delete id old => id < 256 ^ 4 ∧ TupleFits old.tuple
  | .truncate _ ids => ids.length < 256 ^ 4 ∧ ∀ id ∈ ids, id < 256 ^ 4

/-! ## Fields -/

theorem takes_u8 : Takes u8 fun b bytes => True ∧ bytes = [b] := by
  refine ((takes_take _ 1).bind fun window => takes_pure _).congr fun b bytes => ?_
  constructor
  · rintro ⟨window, front, behind, ⟨rfl, hlength⟩, ⟨rfl, rfl⟩, rfl⟩
    obtain ⟨c, rfl⟩ := List.length_eq_one_iff.1 hlength
    exact ⟨trivial, rfl⟩
  · rintro ⟨-, rfl⟩
    exact ⟨[b], [b], [], ⟨rfl, rfl⟩, ⟨rfl, rfl⟩, rfl⟩

theorem takes_word (width : Nat) :
    Takes (word width) fun n bytes => n < 256 ^ width ∧ bytes = put width n := by
  refine ((takes_take _ width).bind fun window => takes_pure _).congr fun n bytes => ?_
  rw [← eq_put_iff]
  constructor
  · rintro ⟨window, front, behind, ⟨rfl, rfl⟩, ⟨rfl, rfl⟩, rfl⟩
    rw [List.append_nil]
    exact ⟨rfl, rfl⟩
  · rintro ⟨rfl, rfl⟩
    exact ⟨bytes, bytes, [], ⟨rfl, rfl⟩, ⟨rfl, rfl⟩, (List.append_nil _).symm⟩

theorem takes_i32 : Takes i32 fun n bytes => n = signed 32 (bigEndian bytes) ∧ bytes.length = 4 := by
  refine ((takes_take _ 4).bind fun window => takes_pure _).congr fun n bytes => ?_
  constructor
  · rintro ⟨window, front, behind, ⟨rfl, hlength⟩, ⟨rfl, rfl⟩, rfl⟩
    rw [List.append_nil]
    exact ⟨rfl, hlength⟩
  · rintro ⟨rfl, hlength⟩
    exact ⟨bytes, bytes, [], ⟨rfl, hlength⟩, ⟨rfl, rfl⟩, (List.append_nil _).symm⟩

theorem toUTF8_of_decoded {bytes : ByteArray} {text : String}
    (h : String.fromUTF8? bytes = some text) : text.toUTF8 = bytes := by
  rw [String.fromUTF8?] at h
  split at h
  · cases h
    rfl
  · cases h

theorem decoded_toUTF8 (text : String) : String.fromUTF8? text.toUTF8 = some text := by
  have hvalid : text.toUTF8.IsValidUTF8 := text.isValidUTF8
  rw [String.fromUTF8?, dif_pos hvalid]
  rfl

theorem toByteArray_toList (bytes : ByteArray) : bytes.data.toList.toByteArray = bytes := by
  apply ByteArray.ext
  rw [List.data_toByteArray]

theorem nameBytes_of_decoded {piece : List UInt8} {name : String} :
    String.fromUTF8? piece.toByteArray = some name ↔ piece = nameBytes name := by
  constructor
  · intro h
    rw [nameBytes, toUTF8_of_decoded h, List.data_toByteArray]
  · rintro rfl
    rw [nameBytes, toByteArray_toList, decoded_toUTF8]

theorem takes_cString : Takes cString fun name bytes => NameFits name ∧ bytes = putName name := by
  unfold cString
  apply ((takes_upTo _ 0).bind (H := fun piece name bytes => piece = nameBytes name ∧ bytes = []) ?_).congr
  · intro name bytes
    constructor
    · rintro ⟨piece, front, behind, ⟨rfl, hfits⟩, ⟨rfl, rfl⟩, rfl⟩
      exact ⟨hfits, List.append_nil _⟩
    · rintro ⟨hfits, rfl⟩
      exact ⟨_, _, [], ⟨rfl, hfits⟩, ⟨rfl, rfl⟩, (List.append_nil _).symm⟩
  · intro piece
    cases htext : String.fromUTF8? piece.toByteArray with
    | some text =>
      refine (takes_pure text).congr fun name bytes => and_congr_left fun _ => ?_
      rw [← nameBytes_of_decoded, htext, Option.some.injEq]
      exact eq_comm
    | none =>
      refine (takes_fail _).congr fun name bytes => ?_
      rw [← nameBytes_of_decoded, htext]
      simp

/-! ## Tuples -/

/-- A piece with a tag in front, by what is behind the tag. -/
theorem takes_tagged {γ δ : Type} {branch : UInt8 → Parser γ} {Fits : δ → Prop} {kept : δ → γ}
    {tag : δ → UInt8} {fields : δ → List UInt8}
    (h : ∀ t, Takes (branch t) fun a behind =>
      ∃ w, Fits w ∧ a = kept w ∧ tag w = t ∧ fields w = behind) :
    Takes (u8 >>= branch) fun a bytes =>
      ∃ w, Fits w ∧ a = kept w ∧ bytes = tag w :: fields w := by
  refine (takes_u8.bind h).congr fun a bytes => ?_
  rw [seq_written]
  constructor
  · rintro ⟨t, behind, -, ⟨w, hfits, rfl, rfl, rfl⟩, rfl⟩
    exact ⟨w, hfits, rfl, rfl⟩
  · rintro ⟨w, hfits, rfl, rfl⟩
    exact ⟨tag w, fields w, trivial, ⟨w, hfits, rfl, rfl, rfl⟩, rfl⟩

/-- A tag that nothing has. -/
theorem takes_untagged {γ δ : Type} {Fits : δ → Prop} {kept : δ → γ} {tag : δ → UInt8}
    {fields : δ → List UInt8} {t : UInt8} (h : ∀ w, tag w ≠ t) (error : String) :
    Takes (fail error : Parser γ) fun a behind =>
      ∃ w, Fits w ∧ a = kept w ∧ tag w = t ∧ fields w = behind := by
  refine (takes_fail error).congr fun a behind => ⟨False.elim, ?_⟩
  rintro ⟨w, -, -, htag, -⟩
  exact h w htag

theorem takes_text : Takes
    (do let length ← u32
        let bytes ← Pgoutput.take length
        return .text bytes.toByteArray : Parser TupleValue) fun value behind =>
      ∃ w, ValueFits w ∧ value = id w ∧ valueTag w = byte 't' ∧ valueFields w = behind := by
  refine ((takes_word 4).bind fun length => (takes_take _ length).bind fun bytes =>
    takes_pure _).congr fun value behind => ?_
  rw [seq_written]
  constructor
  · rintro ⟨length, more, hlength, ⟨text, front, last, ⟨rfl, rfl⟩, ⟨rfl, rfl⟩, rfl⟩, rfl⟩
    refine ⟨.text front.toByteArray, ?_, rfl, rfl, ?_⟩
    · simpa [ValueFits] using hlength
    · simp [valueFields, List.data_toByteArray]
  · rintro ⟨w, hfits, hvalue, htag, rfl⟩
    cases w with
    | text bytes =>
      exact ⟨_, bytes.data.toList, hfits, ⟨_, _, [], ⟨rfl, rfl⟩,
        ⟨by rw [hvalue, toByteArray_toList]; rfl, rfl⟩, (List.append_nil _).symm⟩, rfl⟩
    | null => exact absurd htag (by decide)
    | unchangedToast => exact absurd htag (by decide)

theorem takes_tupleValue : Takes tupleValue fun value bytes =>
    ∃ w, ValueFits w ∧ value = id w ∧ bytes = putValue w := by
  refine takes_tagged fun kind => ?_
  split
  · rename_i hkind
    subst hkind
    refine (takes_pure _).congr fun value behind => ?_
    constructor
    · rintro ⟨rfl, rfl⟩
      exact ⟨.null, trivial, rfl, rfl, rfl⟩
    · rintro ⟨w, -, hvalue, htag, rfl⟩
      cases w with
      | null => exact ⟨hvalue, rfl⟩
      | unchangedToast => exact absurd htag (by decide)
      | text bytes => exact absurd htag (by decide : byte 't' ≠ byte 'n')
  rename_i hnull
  split
  · rename_i hkind
    subst hkind
    refine (takes_pure _).congr fun value behind => ?_
    constructor
    · rintro ⟨rfl, rfl⟩
      exact ⟨.unchangedToast, trivial, rfl, rfl, rfl⟩
    · rintro ⟨w, -, hvalue, htag, rfl⟩
      cases w with
      | null => exact absurd htag (by decide)
      | unchangedToast => exact ⟨hvalue, rfl⟩
      | text bytes => exact absurd htag (by decide : byte 't' ≠ byte 'u')
  rename_i htoast
  split
  · rename_i hkind
    subst hkind
    exact takes_text
  rename_i htext
  have hnone (value : TupleValue) : valueTag value ≠ kind := by
    cases value with
    | null => exact Ne.symm hnull
    | unchangedToast => exact Ne.symm htoast
    | text bytes => exact Ne.symm htext
  split
  · exact takes_untagged hnone _
  · exact takes_untagged hnone _

theorem putValue_ne_nil (value : TupleValue) : putValue value ≠ [] := List.cons_ne_nil _ _

theorem takes_tuple : Takes tuple fun data bytes => TupleFits data ∧ bytes = putTuple data := by
  refine ((takes_word 2).bind fun count =>
    (takes_tupleValue.collected count TupleData.mk).bounded _ ?_).congr fun data bytes => ?_
  · rintro data bytes ⟨values, -, rfl, -, rfl⟩
    exact length_le_flatMap putValue_ne_nil values
  · rw [seq_written]
    constructor
    · rintro ⟨count, behind, hcount, ⟨values, hfits, rfl, rfl, rfl⟩, rfl⟩
      rw [List.map_id]
      exact ⟨⟨hcount, hfits⟩, rfl⟩
    · rintro ⟨hfits, rfl⟩
      exact ⟨_, _, hfits.1, ⟨data.values, hfits.2, rfl, by rw [List.map_id], rfl⟩, rfl⟩

theorem takes_relationColumn : Takes relationColumn fun column bytes =>
    ∃ sent, ColumnFits sent ∧ column = ⟨sent.name⟩ ∧ bytes = putColumn sent := by
  refine (takes_u8.bind fun _ => takes_cString.bind fun name => (takes_word 4).bind fun _ =>
    takes_i32.bind fun _ => takes_pure _).congr fun column bytes => ?_
  simp only [seq_written]
  constructor
  · rintro ⟨flags, -, -, ⟨name, -, hname, ⟨oid, -, hoid, ⟨modifier, word, last, ⟨rfl, hword⟩, ⟨rfl, rfl⟩,
      rfl⟩, rfl⟩, rfl⟩, rfl⟩
    refine ⟨⟨flags, name, oid, signed 32 (bigEndian word)⟩, ⟨hname, hoid⟩, rfl, ?_⟩
    rw [putColumn, putI32_signed hword, List.append_nil]
    rfl
  · rintro ⟨sent, ⟨hname, hoid⟩, rfl, rfl⟩
    exact ⟨sent.flags, _, trivial, ⟨sent.name, _, hname, ⟨sent.typeOid, _, hoid,
      ⟨_, putI32 sent.typeModifier, [], ⟨rfl, rfl⟩, ⟨rfl, rfl⟩, (List.append_nil _).symm⟩, rfl⟩, rfl⟩,
      rfl⟩

/-! ## Messages -/

/-- What is kept of a message of one tag, by the bytes behind the tag. -/
def Kept (t : UInt8) (m : Message) (behind : List UInt8) : Prop :=
  ∃ sent : SentMessage, sent.Fits ∧ m = sent.message ∧ sent.tag = t ∧ sent.fields = behind

theorem takes_begin : Takes
    (do let _finalLsn ← u64
        let _commitTimestamp ← u64
        let _transactionId ← u32
        return .begin : Parser Message) (Kept (byte 'B')) := by
  refine ((takes_word 8).bind fun _ => (takes_word 8).bind fun _ => (takes_word 4).bind fun _ =>
    takes_pure _).congr fun m behind => ?_
  simp only [seq_written]
  constructor
  · rintro ⟨lsn, -, hlsn, ⟨at_, -, hat, ⟨xid, last, hxid, ⟨rfl, rfl⟩, rfl⟩, rfl⟩, rfl⟩
    exact ⟨.begin lsn at_ xid, ⟨hlsn, hat, hxid⟩, rfl, rfl, by simp [SentMessage.fields]⟩
  · rintro ⟨sent, hfits, rfl, htag, rfl⟩
    cases sent with
    | begin lsn at_ xid =>
      exact ⟨lsn, _, hfits.1, ⟨at_, _, hfits.2.1, ⟨xid, [], hfits.2.2, ⟨rfl, rfl⟩, rfl⟩, rfl⟩,
        by simp [SentMessage.fields]⟩
    | _ => simp [SentMessage.tag, byte] at htag

theorem takes_commit : Takes
    (do let _flags ← u8
        let _commitLsn ← u64
        let _endLsn ← u64
        let _commitTimestamp ← u64
        return .commit : Parser Message) (Kept (byte 'C')) := by
  refine (takes_u8.bind fun _ => (takes_word 8).bind fun _ => (takes_word 8).bind fun _ =>
    (takes_word 8).bind fun _ => takes_pure _).congr fun m behind => ?_
  simp only [seq_written]
  constructor
  · rintro ⟨flags, -, -, ⟨lsn, -, hlsn, ⟨end_, -, hend, ⟨at_, last, hat, ⟨rfl, rfl⟩, rfl⟩, rfl⟩, rfl⟩,
      rfl⟩
    exact ⟨.commit flags lsn end_ at_, ⟨hlsn, hend, hat⟩, rfl, rfl, by simp [SentMessage.fields]⟩
  · rintro ⟨sent, hfits, rfl, htag, rfl⟩
    cases sent with
    | commit flags lsn end_ at_ =>
      exact ⟨flags, _, trivial, ⟨lsn, _, hfits.1, ⟨end_, _, hfits.2.1, ⟨at_, [], hfits.2.2,
        ⟨rfl, rfl⟩, rfl⟩, rfl⟩, rfl⟩, by simp [SentMessage.fields]⟩
    | _ => simp [SentMessage.tag, byte] at htag

theorem takes_origin : Takes
    (do let _lsn ← u64
        let _name ← cString
        return .origin : Parser Message) (Kept (byte 'O')) := by
  refine ((takes_word 8).bind fun _ => takes_cString.bind fun _ => takes_pure _).congr
    fun m behind => ?_
  simp only [seq_written]
  constructor
  · rintro ⟨lsn, -, hlsn, ⟨name, last, hname, ⟨rfl, rfl⟩, rfl⟩, rfl⟩
    exact ⟨.origin lsn name, ⟨hlsn, hname⟩, rfl, rfl, by simp [SentMessage.fields]⟩
  · rintro ⟨sent, hfits, rfl, htag, rfl⟩
    cases sent with
    | origin lsn name =>
      exact ⟨lsn, _, hfits.1, ⟨name, [], hfits.2, ⟨rfl, rfl⟩, rfl⟩, by simp [SentMessage.fields]⟩
    | _ => simp [SentMessage.tag, byte] at htag

theorem takes_type : Takes
    (do let _oid ← u32
        let _namespace ← cString
        let _name ← cString
        return .type : Parser Message) (Kept (byte 'Y')) := by
  refine ((takes_word 4).bind fun _ => takes_cString.bind fun _ => takes_cString.bind fun _ =>
    takes_pure _).congr fun m behind => ?_
  simp only [seq_written]
  constructor
  · rintro ⟨oid, -, hoid, ⟨namespace_, -, hspace, ⟨name, last, hname, ⟨rfl, rfl⟩, rfl⟩, rfl⟩, rfl⟩
    exact ⟨.type oid namespace_ name, ⟨hoid, hspace, hname⟩, rfl, rfl,
      by simp [SentMessage.fields]⟩
  · rintro ⟨sent, hfits, rfl, htag, rfl⟩
    cases sent with
    | type oid namespace_ name =>
      exact ⟨oid, _, hfits.1, ⟨namespace_, _, hfits.2.1, ⟨name, [], hfits.2.2, ⟨rfl, rfl⟩, rfl⟩, rfl⟩,
        by simp [SentMessage.fields]⟩
    | _ => simp [SentMessage.tag, byte] at htag

theorem takes_relation : Takes parseRelation (Kept (byte 'R')) := by
  refine ((takes_word 4).bind fun id => takes_cString.bind fun namespace_ =>
    takes_cString.bind fun name => takes_u8.bind fun _ => (takes_word 2).bind fun count =>
    (takes_relationColumn.collected count fun columns =>
      Message.relation ⟨id, namespace_, name, columns⟩).bounded _ ?_).congr fun m behind => ?_
  · rintro m bytes ⟨columns, -, rfl, -, rfl⟩
    exact length_le_flatMap (fun column => List.cons_ne_nil _ _) columns
  simp only [seq_written]
  constructor
  · rintro ⟨id, -, hid, ⟨namespace_, -, hspace, ⟨name, -, hname, ⟨identity, -, -, ⟨count, -, hcount,
      ⟨columns, hcolumns, rfl, rfl, rfl⟩, rfl⟩, rfl⟩, rfl⟩, rfl⟩, rfl⟩
    exact ⟨.relation id namespace_ name identity columns,
      ⟨hid, hspace, hname, hcount, hcolumns⟩, rfl, rfl, rfl⟩
  · rintro ⟨sent, hfits, rfl, htag, rfl⟩
    cases sent with
    | relation id namespace_ name identity columns =>
      obtain ⟨hid, hspace, hname, hcount, hcolumns⟩ := hfits
      exact ⟨id, _, hid, ⟨namespace_, _, hspace, ⟨name, _, hname, ⟨identity, _, trivial,
        ⟨_, _, hcount, ⟨columns, hcolumns, rfl, rfl, rfl⟩, rfl⟩, rfl⟩, rfl⟩, rfl⟩, rfl⟩
    | _ => simp [SentMessage.tag, byte] at htag

/-! ## Changes -/

/-- A piece that a marker announces. -/
theorem takes_marked {γ : Type} {p : Parser γ} {G : γ → List UInt8 → Prop} (h : Takes p G)
    (marker : UInt8) (error : UInt8 → String) :
    Takes (do
      let found ← u8
      if found = marker then p else fail (error found)) fun a bytes =>
        ∃ behind, G a behind ∧ bytes = marker :: behind := by
  refine (takes_u8.bind fun found => Takes.ite (fun _ => h) fun _ => takes_fail _).congr
    fun a bytes => ?_
  rw [seq_written]
  constructor
  · rintro ⟨found, behind, -, hG, rfl⟩
    split at hG
    · rename_i hfound
      exact ⟨behind, hG, by rw [hfound]; rfl⟩
    · exact hG.elim
  · rintro ⟨behind, hG, rfl⟩
    exact ⟨marker, behind, trivial, by rwa [if_pos rfl], rfl⟩

/-- A tuple, and what is made of it. -/
theorem takes_made {γ : Type} (f : TupleData → γ) :
    Takes (tuple >>= fun data => pure (f data)) fun a bytes =>
      ∃ data, TupleFits data ∧ a = f data ∧ bytes = putTuple data := by
  refine (takes_tuple.bind fun data => takes_pure (f data)).congr fun a bytes => ?_
  rw [seq_written]
  constructor
  · rintro ⟨data, last, hdata, ⟨rfl, rfl⟩, rfl⟩
    exact ⟨data, hdata, rfl, List.append_nil _⟩
  · rintro ⟨data, hdata, rfl, rfl⟩
    exact ⟨data, [], hdata, ⟨rfl, rfl⟩, (List.append_nil _).symm⟩

theorem takes_insert : Takes parseInsert (Kept (byte 'I')) := by
  refine ((takes_word 4).bind fun id => takes_marked (takes_made (Message.insert id)) (byte 'N')
    fun found => _).congr fun m behind => ?_
  rw [seq_written]
  constructor
  · rintro ⟨id, -, hid, ⟨-, ⟨new, hnew, rfl, rfl⟩, rfl⟩, rfl⟩
    exact ⟨.insert id new, ⟨hid, hnew⟩, rfl, rfl, rfl⟩
  · rintro ⟨sent, hfits, rfl, htag, rfl⟩
    cases sent with
    | insert id new => exact ⟨id, _, hfits.1, ⟨_, ⟨new, hfits.2, rfl, rfl⟩, rfl⟩, rfl⟩
    | _ => simp [SentMessage.tag, byte] at htag

theorem OldTuple.put_eq (old : OldTuple) :
    ∃ marker, (marker = byte 'K' ∨ marker = byte 'O') ∧ old.put = marker :: putTuple old.tuple := by
  cases old with
  | key data => exact ⟨_, .inl rfl, rfl⟩
  | full data => exact ⟨_, .inr rfl, rfl⟩

theorem exists_oldTuple {marker : UInt8} (h : marker = byte 'K' ∨ marker = byte 'O')
    (data : TupleData) : ∃ old : OldTuple, old.tuple = data ∧ old.put = marker :: putTuple data := by
  obtain rfl | rfl := h
  · exact ⟨.key data, rfl, rfl⟩
  · exact ⟨.full data, rfl, rfl⟩

theorem takes_delete : Takes parseDelete (Kept (byte 'D')) := by
  refine ((takes_word 4).bind fun id => takes_u8.bind fun marker => Takes.ite
    (fun _ => takes_made (Message.delete id)) fun _ => takes_fail _).congr fun m behind => ?_
  simp only [seq_written]
  constructor
  · rintro ⟨id, -, hid, ⟨marker, bytes, -, hG, rfl⟩, rfl⟩
    split at hG
    · rename_i hmarker
      obtain ⟨data, hdata, rfl, rfl⟩ := hG
      obtain ⟨old, rfl, hput⟩ := exists_oldTuple hmarker data
      exact ⟨.delete id old, ⟨hid, hdata⟩, rfl, rfl, by rw [SentMessage.fields, hput]; rfl⟩
    · exact hG.elim
  · rintro ⟨sent, hfits, rfl, htag, rfl⟩
    cases sent with
    | delete id old =>
      obtain ⟨marker, hmarker, hput⟩ := old.put_eq
      refine ⟨id, _, hfits.1, ⟨marker, putTuple old.tuple, trivial, ?_, rfl⟩, ?_⟩
      · rw [if_pos hmarker]
        exact ⟨old.tuple, hfits.2, rfl, rfl⟩
      · rw [SentMessage.fields, hput]
        rfl
    | _ => simp [SentMessage.tag, byte] at htag

theorem takes_update : Takes parseUpdate (Kept (byte 'U')) := by
  refine ((takes_word 4).bind fun id => takes_u8.bind fun marker => Takes.ite
    (fun _ => takes_tuple.bind fun old =>
      takes_marked (takes_made (Message.update id (some old))) (byte 'N') fun found => _)
    fun _ => Takes.ite (fun _ => takes_made (Message.update id none)) fun _ => takes_fail _).congr
    fun m behind => ?_
  simp only [seq_written]
  constructor
  · rintro ⟨id, -, hid, ⟨marker, bytes, -, hG, rfl⟩, rfl⟩
    split at hG
    · rename_i hmarker
      obtain ⟨data, -, hdata, ⟨-, ⟨new, hnew, rfl, rfl⟩, rfl⟩, rfl⟩ := hG
      obtain ⟨old, rfl, hput⟩ := exists_oldTuple hmarker data
      refine ⟨.update id (some old) new, ⟨hid, ?_, hnew⟩, rfl, rfl, ?_⟩
      · rintro image ⟨⟩
        exact hdata
      · rw [SentMessage.fields, hput]
        rfl
    · split at hG
      · rename_i hmarker
        obtain ⟨new, hnew, rfl, rfl⟩ := hG
        exact ⟨.update id none new, ⟨hid, by simp, hnew⟩, rfl, rfl, by rw [hmarker]; rfl⟩
      · exact hG.elim
  · rintro ⟨sent, hfits, rfl, htag, rfl⟩
    cases sent with
    | update id old new =>
      obtain ⟨hid, hold, hnew⟩ := hfits
      cases old with
      | none =>
        refine ⟨id, _, hid, ⟨byte 'N', putTuple new, trivial, ?_, rfl⟩, rfl⟩
        rw [if_neg (by decide), if_pos rfl]
        exact ⟨new, hnew, rfl, rfl⟩
      | some old =>
        obtain ⟨marker, hmarker, hput⟩ := old.put_eq
        refine ⟨id, _, hid, ⟨marker, putTuple old.tuple ++ byte 'N' :: putTuple new, trivial, ?_, rfl⟩,
          ?_⟩
        · rw [if_pos hmarker]
          exact ⟨old.tuple, _, hold old rfl, ⟨_, ⟨new, hnew, rfl, rfl⟩, rfl⟩, rfl⟩
        · rw [SentMessage.fields, hput]
          rfl
    | _ => simp [SentMessage.tag, byte] at htag

theorem put_ne_nil (n : Nat) : put 4 n ≠ [] := by
  intro h
  have hlength := length_put 4 n
  rw [h] at hlength
  cases hlength

theorem takes_truncate : Takes parseTruncate (Kept (byte 'T')) := by
  have hword : Takes u32 fun n bytes => ∃ w, w < 256 ^ 4 ∧ n = id w ∧ bytes = put 4 w := by
    refine (takes_word 4).congr fun n bytes => ?_
    constructor
    · rintro ⟨hn, rfl⟩
      exact ⟨n, hn, rfl, rfl⟩
    · rintro ⟨w, hw, rfl, rfl⟩
      exact ⟨hw, rfl⟩
  refine ((takes_word 4).bind fun count => (takes_u8.bind fun _ =>
    hword.collected count Message.truncate).bounded _ ?_).congr fun m behind => ?_
  · simp only [seq_written]
    rintro m bytes ⟨flags, -, -, ⟨ids, -, rfl, -, rfl⟩, rfl⟩
    have hlength := length_le_flatMap put_ne_nil ids
    rw [List.length_append]
    omega
  · simp only [seq_written]
    constructor
    · rintro ⟨count, -, hcount, ⟨flags, -, -, ⟨ids, hids, rfl, rfl, rfl⟩, rfl⟩, rfl⟩
      exact ⟨.truncate flags ids, ⟨hcount, hids⟩, by rw [List.map_id]; rfl, rfl, rfl⟩
    · rintro ⟨sent, hfits, rfl, htag, rfl⟩
      cases sent with
      | truncate flags ids =>
        exact ⟨_, _, hfits.1, ⟨flags, _, trivial, ⟨ids, hfits.2, rfl, by rw [List.map_id]; rfl, rfl⟩,
          rfl⟩, rfl⟩
      | _ => simp [SentMessage.tag, byte] at htag

/-! ## Whole messages -/

theorem takes_message : Takes message fun m bytes =>
    ∃ sent : SentMessage, sent.Fits ∧ m = sent.message ∧ bytes = sent.encode := by
  refine takes_tagged fun t => ?_
  split
  · rename_i h
    exact h ▸ takes_begin
  rename_i hbegin
  split
  · rename_i h
    exact h ▸ takes_commit
  rename_i hcommit
  split
  · rename_i h
    exact h ▸ takes_origin
  rename_i horigin
  split
  · rename_i h
    exact h ▸ takes_relation
  rename_i hrelation
  split
  · rename_i h
    exact h ▸ takes_type
  rename_i htype
  split
  · rename_i h
    exact h ▸ takes_insert
  rename_i hinsert
  split
  · rename_i h
    exact h ▸ takes_update
  rename_i hupdate
  split
  · rename_i h
    exact h ▸ takes_delete
  rename_i hdelete
  split
  · rename_i h
    exact h ▸ takes_truncate
  rename_i htruncate
  refine takes_untagged (fun sent => ?_) _
  cases sent with
  | begin => exact Ne.symm hbegin
  | commit => exact Ne.symm hcommit
  | origin => exact Ne.symm horigin
  | relation => exact Ne.symm hrelation
  | type => exact Ne.symm htype
  | insert => exact Ne.symm hinsert
  | update => exact Ne.symm hupdate
  | delete => exact Ne.symm hdelete
  | truncate => exact Ne.symm htruncate

/-- A message is parsed from its bytes, and from nothing else. -/
theorem parse_iff (bytes : List UInt8) (m : Message) :
    parse bytes = .ok m ↔
      ∃ sent : SentMessage, sent.Fits ∧ m = sent.message ∧ bytes = sent.encode :=
  takes_message.whole_iff _ bytes m

theorem parse_encode {sent : SentMessage} (h : sent.Fits) :
    parse sent.encode = .ok sent.message := (parse_iff _ _).2 ⟨sent, h, rfl, rfl⟩

/-- A window is handed out only when all of it is there. -/
theorem take_within {r r' : Reader UInt8} {count : Nat} {window : List UInt8}
    (h : Pgoutput.take count r = .ok (window, r')) :
    window.length = count ∧ r.position + count ≤ r.bytes.length := by
  obtain ⟨hbytes, front, ⟨rfl, rfl⟩, hrest⟩ := (takes_take _ count r window r').1 h
  obtain ⟨hfits, -⟩ := Reader.eq_advance hbytes hrest
  exact ⟨rfl, hfits⟩

theorem parse_error_of {bytes : List UInt8} (h : ∀ m, parse bytes ≠ .ok m) :
    ∃ error, parse bytes = .error error := by
  cases hparse : parse bytes with
  | ok m => exact absurd hparse (h m)
  | error error => exact ⟨error, rfl⟩

theorem prefix_refused {sent : SentMessage} (hfits : sent.Fits) {front more : List UInt8}
    (hmore : more ≠ []) (heq : sent.encode = front ++ more) :
    ∃ error, parse front = .error error := by
  refine parse_error_of fun m hparse => hmore ?_
  obtain ⟨other, hother, -, rfl⟩ := (parse_iff front m).1 hparse
  exact takes_message.prefix_free ⟨other, hother, rfl, rfl⟩ ⟨sent, hfits, rfl, heq.symm⟩

theorem extension_refused {sent : SentMessage} (hfits : sent.Fits) {more : List UInt8}
    (hmore : more ≠ []) : ∃ error, parse (sent.encode ++ more) = .error error := by
  refine parse_error_of fun m hparse => hmore ?_
  obtain ⟨other, hother, -, heq⟩ := (parse_iff _ m).1 hparse
  exact takes_message.prefix_free ⟨sent, hfits, rfl, rfl⟩ ⟨other, hother, rfl, heq⟩

/-- Every message is parsed from its bytes; bytes that are parsed are one message's; what is
shorter or longer than a message is refused; and no window reaches past the end. -/
theorem pgoutput_exact :
    (∀ sent : SentMessage, sent.Fits → parse sent.encode = .ok sent.message) ∧
    (∀ bytes, (∃ sent : SentMessage, sent.Fits ∧ bytes = sent.encode ∧
        parse bytes = .ok sent.message) ∨ ∃ error, parse bytes = .error error) ∧
    (∀ (sent : SentMessage) more, sent.Fits → more ≠ [] →
      (∀ front, sent.encode = front ++ more → ∃ error, parse front = .error error) ∧
        ∃ error, parse (sent.encode ++ more) = .error error) ∧
    (∀ (r r' : Reader UInt8) count window, Pgoutput.take count r = .ok (window, r') →
      window.length = count ∧ r.position + count ≤ r.bytes.length) := by
  refine ⟨fun sent hfits => parse_encode hfits, fun bytes => ?_,
    fun sent more hfits hmore => ⟨fun front heq => prefix_refused hfits hmore heq,
      extension_refused hfits hmore⟩, fun r r' count window h => take_within h⟩
  cases hparse : parse bytes with
  | ok m =>
    obtain ⟨sent, hfits, rfl, hbytes⟩ := (parse_iff bytes m).1 hparse
    exact .inl ⟨sent, hfits, hbytes, rfl⟩
  | error error => exact .inr ⟨error, rfl⟩

end Cdc
