import RdltConnectors.File.LeaseMutex

/-!
# The lease on a local filesystem

There a replace is an unconditional rename. A heartbeat that stalls between its
read and its write while a competitor finds the document stale, unlinks it and
creates its own puts the evicted name back over the new holder's. This file has
that interleaving, and shows that nothing else goes wrong: where no takeover
falls between a read and its write, replaces only ever hit the writer's own
document and at most one owner passes the guard.
-/
namespace FileLease

/-- A replace that reaches the disk overwrites a document naming its own owner. -/
def ReplacesOwn (w : World) : Act → Prop
  | .acquire owner d => ∀ now holder seen,
      (w.session owner).phase = .acquiring (.replace now holder seen) → d ≠ .requestLost →
      OwnedBy w.store owner
  | .renew owner i d => ∀ b doc stamp seen, (w.session owner).beats[i]? = some b →
      b.pc = .replace doc stamp seen → d ≠ .requestLost → OwnedBy w.store owner
  | _ => True

/-- An undisturbed replace finds its own document. -/
theorem replacesOwn_of_undisturbed {w : World} {a : Act} (h : Inv .localDir w)
    (hund : Undisturbed .localDir w a) : ReplacesOwn w a := by
  cases a with
  | acquire owner d =>
    intro now holder seen hphase hd
    obtain ⟨-, ho, hbytes, hknown⟩ := h.acquire owner _ hphase
    exact ho ▸ hknown.ownedBy (hund _ hphase rfl hd) hbytes
  | renew owner i d =>
    intro b doc stamp seen hb hpc hd
    have hok := h.renew owner b (List.mem_of_getElem? hb)
    have hcur := hund b hb
    rw [hpc] at hok hcur
    obtain ⟨⟨ho, hbytes, hknown⟩, -⟩ := hok
    exact ho ▸ hknown.ownedBy (hcur rfl hd).1 hbytes
  | _ => trivial

/-- Ownership of replaces and mutual exclusion on the local arm, in every run
whose replaces are undisturbed. -/
theorem local_lease_safe_when_undisturbed (scope : Scope) (store : DocStore) (clock : Nat)
    (acts : List Act)
    (hund : Transition.Meets (step .localDir scope) (Undisturbed .localDir)
      (World.initial store clock) acts) :
    Transition.Meets (step .localDir scope) ReplacesOwn (World.initial store clock) acts ∧
    AtMostOneHolder scope
      (Transition.run (step .localDir scope) (World.initial store clock) acts) := by
  have hstep (w : World) (a : Act) (h : Inv .localDir w) (hu : Undisturbed .localDir w a) :
      Inv .localDir (step .localDir scope w a) := inv_step h hu
  constructor
  · exact Transition.meets_of_invariant hstep
      (fun w a h hu => replacesOwn_of_undisturbed h hu) (inv_initial _ store clock) hund
  · exact atMostOneHolder_of_sound
      (Transition.run_invariant hstep (inv_initial _ store clock) hund).sound

def calmScope : Scope := ⟨"orders", "_rdlt_lease.orders.json", 15000⟩

/-- One session acquires, beats once fifteen seconds later, and is still held. -/
def calmRun : List Act :=
  [.openLoad "a", .acquire "a" .delivered, .acquire "a" .delivered, .acquire "a" .delivered,
   .tick 15000, .beat "a", .renew "a" 0 .delivered, .renew "a" 0 .delivered,
   .renew "a" 0 .delivered, .renew "a" 0 .delivered]

theorem calm_run_safe :
    Transition.Meets (step .localDir calmScope) (Undisturbed .localDir)
      (World.initial ⟨none, 0, 0⟩ 0) calmRun ∧
    Transition.Meets (step .localDir calmScope) ReplacesOwn
      (World.initial ⟨none, 0, 0⟩ 0) calmRun ∧
    AtMostOneHolder calmScope
      (Transition.run (step .localDir calmScope) (World.initial ⟨none, 0, 0⟩ 0) calmRun) := by
  have hund : Transition.Meets (step .localDir calmScope) (Undisturbed .localDir)
      (World.initial ⟨none, 0, 0⟩ 0) calmRun := by
    refine ⟨trivial, ?_, ?_, ?_, trivial, trivial, ?_, ?_, ?_, ?_, trivial⟩
    · intro pc hpc; cases hpc; trivial
    · intro pc hpc; cases hpc; trivial
    · intro pc hpc; cases hpc; trivial
    · intro b hb; cases hb; trivial
    · intro b hb; cases hb; trivial
    · intro b hb
      cases hb
      refine fun _ _ => ⟨rfl, fun e he => ?_⟩
      exact (show ∀ e ∈ [0], e ≤ 15000 by decide) e (mem_believed he)
    · intro b hb; cases hb; trivial
  exact ⟨hund, local_lease_safe_when_undisturbed _ _ _ _ hund⟩

/-- `a`'s heartbeat reads its own document and stalls for longer than the
takeover age; `b` unlinks the stale document and creates its own; `a` then
writes. -/
def stalledRenew : List Act :=
  [.openLoad "a", .acquire "a" .delivered, .acquire "a" .delivered, .acquire "a" .delivered,
   .tick 15000, .beat "a", .renew "a" 0 .delivered, .tick 286000,
   .openLoad "b", .acquire "b" .delivered, .acquire "b" .delivered, .acquire "b" .delivered,
   .acquire "b" .delivered, .acquire "b" .delivered, .acquire "b" .delivered,
   .acquire "b" .delivered,
   .renew "a" 0 .delivered, .renew "a" 0 .delivered, .renew "a" 0 .delivered]

/-- The stalled write lands on `b`'s document, and both sessions then pass. -/
theorem stalled_renew_breaks_local_lease :
    ¬ Transition.Meets (step .localDir calmScope) ReplacesOwn
        (World.initial ⟨none, 0, 0⟩ 0) stalledRenew ∧
    ¬ AtMostOneHolder calmScope
        (Transition.run (step .localDir calmScope) (World.initial ⟨none, 0, 0⟩ 0)
          stalledRenew) := by
  constructor
  · intro hmeets
    have hown : ReplacesOwn
        (Transition.run (step .localDir calmScope) (World.initial ⟨none, 0, 0⟩ 0)
          (stalledRenew.take 17)) (.renew "a" 0 .delivered) :=
      ((Transition.meets_append _ _ _ (stalledRenew.take 17) (stalledRenew.drop 17)).1
        hmeets).2.1
    obtain ⟨doc, hdoc, ho⟩ := hown _ _ _ _ rfl rfl (by decide)
    cases hdoc
    exact absurd ho (by decide)
  · intro hexcl
    have ha : StillHeld calmScope (Transition.run (step .localDir calmScope)
        (World.initial ⟨none, 0, 0⟩ 0) stalledRenew) "a" :=
      ⟨⟨false, 301000⟩, by decide, by decide⟩
    have hb : StillHeld calmScope (Transition.run (step .localDir calmScope)
        (World.initial ⟨none, 0, 0⟩ 0) stalledRenew) "b" :=
      ⟨⟨false, 301000⟩, by decide, by decide⟩
    exact absurd (hexcl "a" "b" ha hb) (by decide)

end FileLease
