import Mathlib
import RdltConnectors.Cdc.Runtime

/-!
# The slot's lifecycle

Publication and slot are created if missing and never dropped; each lifecycle
state that cannot be used is an error of its own. Positions are read, and the
confirmed position advanced, by calls on the lifecycle connection.
-/
namespace Cdc

open PgTypes Interrupted

/-- The text form of a position: two halves in upper-case hex. -/
def renderLsn (lsn : Nat) : String :=
  let hex (n : Nat) : String := String.ofList ((Nat.toDigits 16 n).map Char.toUpper)
  hex (lsn >>> 32) ++ "/" ++ hex (lsn % 2 ^ 32)

def slotError (detail : String) : SourceError := ⟨.slot, none, detail⟩

def ensurePublication (cdc : CdcConfig) (tables : List String) : Locked Unit := do
  call
  let s ← get
  if s.server.publication.isSome then pure ()
  else if !cdc.createIfMissing then
    throw (slotError s!"publication `{cdc.publication}` does not exist (set `cdc.create_if_missing: true` to have rdlt create it for the configured tables)")
  else command fun server => { server with publication := some tables }

def publicationMissing (cdc : CdcConfig) (missing : List String) : SourceError :=
  let listed := ", ".intercalate (missing.map fun table => "`" ++ table ++ "`")
  slotError s!"publication `{cdc.publication}` does not cover configured table(s) {listed} — `ALTER PUBLICATION {cdc.publication} ADD TABLE …` (rdlt never alters the publication itself)"

/-- Checked even on a publication just created. -/
def ensurePublicationCovers (cdc : CdcConfig) (tables : List String) : Locked Unit := do
  call
  let s ← get
  let covered := s.server.publication.getD []
  let missing := tables.filter fun table => !covered.contains table
  if missing.isEmpty then pure () else throw (publicationMissing cdc missing)

/-- A slot that exists: another tool's, another consumer's, or past retention. -/
def slotRejection (cdc : CdcConfig) (slot : Slot) : Option SourceError :=
  if slot.plugin ≠ "pgoutput" then
    some (slotError s!"replication slot `{cdc.slot}` runs plugin `{slot.plugin}`, not `pgoutput` — it belongs to another tool; configure a different `cdc.slot`")
  else
    match slot.activePid with
    | some pid =>
      some (slotError s!"replication slot `{cdc.slot}` is actively held by pid {pid} — a slot has exactly one consumer; stop the other consumer or configure a different `cdc.slot`")
    | none =>
      match slot.walStatus with
      | some status =>
        if status = "lost" ∨ status = "unreserved" then
          some (slotError s!"replication slot `{cdc.slot}` has wal_status `{status}`: the server discarded WAL the slot still needed (retention overrun). The feed cannot resume — drop the slot, then re-run to take a fresh snapshot (rdlt never drops slots itself)")
        else none
      | none => none

/-- A new slot is consistent at the position it is created at. -/
def Server.createSlot (plugin : String) (server : Server) : Server :=
  { server with slot := some ⟨plugin, none, some "reserved", server.wal⟩ }

def ensureSlot (cdc : CdcConfig) : Locked EnsureOutcome := do
  call
  let s ← get
  match s.server.slot with
  | none =>
    if !cdc.createIfMissing then
      throw (slotError s!"replication slot `{cdc.slot}` does not exist (set `cdc.create_if_missing: true` to have rdlt create it)")
    else
      call
      let s ← get
      modify fun s => { s with server := s.server.createSlot "pgoutput" }
      call
      pure ⟨true, some s.server.wal⟩
  | some slot =>
    match slotRejection cdc slot with
    | some error => throw error
    | none => pure ⟨false, none⟩

def ensure (cdc : CdcConfig) (tables : List String) : Locked EnsureOutcome := do
  ensurePublication cdc tables
  ensurePublicationCovers cdc tables
  ensureSlot cdc

def currentWalLsn : Locked Nat := do
  call
  let s ← get
  pure s.server.wal

def confirmedFlushLsn : Locked Nat := do
  call
  let s ← get
  match s.server.slot with
  | some slot => pure slot.confirmedFlush
  | none => throw s.lost

/-- Moves the confirmed position forward, no further than what is written. -/
def Server.advance (upto : Nat) (server : Server) : Server :=
  { server with
    slot := server.slot.map fun slot =>
      { slot with confirmedFlush := max slot.confirmedFlush (min upto server.wal) } }

def advance (upto : Nat) : Locked Unit := command (Server.advance upto)

/-- The messages a peek up to a position reads, without consuming them: the
publication's, as it was at each commit. -/
def Server.peek (server : Server) (upto : Nat) : Option (List (Nat × Message)) :=
  server.slot.map fun slot => session (server.log.map Commit.sent) slot.confirmedFlush upto

end Cdc
