import EngineerLinux.LibcSystem.Model
import EngineerLinux.Lib.Monitor

/-!
# What `system` does to the signals of a process

`sa_refcntr` is the number of threads that are in `do_system`; while it is not 0, the two signals
are ignored and what the program wants is in `intr` and `quit`. Between its first access to the
dispositions and its last one, the thread that holds the lock is the only one that is in
`do_system`.

The invariant has a part for each owner. What the lock protects (`Data`) is settled while the lock
is free and is at a known stage while a thread holds it, by the library's `Monitor`; the counter is
the number of the threads with a reference; and what a thread knows of its own mask and variables
(`Pc.Knows`) is not touched by the others. A step lemma for each part (`monitor_step`,
`knows_step`, `shells_step`) makes up `Inv.step`.

- `Inv`, `inv_of_reliable`: this, as an invariant of both versions;
- `dispositions_restored`: **the dispositions of the process** come back;
- `shells_begin`: **every shell** begins with the signals of its caller;
- `mask_restored_iff`: **the masks of the threads** come back in 2.27; in 2.32 only for a thread
  that is the last one to leave.
-/

namespace EngineerLinux.LibcSystem

open StartProcess

/-! ## Program points -/

/-- The reference of the thread is in `sa_refcntr`. -/
def Pc.counted : Pc → Bool
  | .setInt | .undoInt | .setQuit | .undoQuit | .unlock | .block | .relock | .undoBlock
  | .testInt _ | .testQuit _ _ | .spawn _ _ | .wait _ | .lockLast _ _ | .subRef _ _
  | .cancelled | .cancelLock | .cancelSub => true
  | _ => false

/-- The thread holds the lock. -/
def Pc.holds : Pc → Bool
  | .addRef | .setInt | .undoInt | .setQuit | .undoQuit | .unlock | .undoBlock | .undoneQuit
  | .undoneInt | .out | .subRef _ _ | .restoreInt _ _ | .restoreQuit _ _ _ | .restoreMask _ _
  | .unlockLast _ | .cancelSub | .cancelQuit | .cancelInt | .cancelUnlock => true
  | _ => false

/-! ## The shared data -/

section Slot

/-- The disposition of one signal: it is ignored, and what the program wants is saved, or it is what
the program wants. -/
def Slot (action want : Nat → Sigaction) (sig : Nat) (saved : Sigaction) (ignored : Prop) : Prop :=
  (ignored → action sig = sa ∧ saved = want sig) ∧ (¬ ignored → action sig = want sig)

variable {action want : Nat → Sigaction} {sig sig' : Nat} {saved : Sigaction} {ignored : Prop}

theorem Slot.of_iff {ignored' : Prop} (h : Slot action want sig saved ignored)
    (hiff : ignored' ↔ ignored) : Slot action want sig saved ignored' :=
  ⟨fun hi => h.1 (hiff.mp hi), fun hi => h.2 fun hi' => hi (hiff.mpr hi')⟩

theorem Slot.ignore (h : Slot action want sig saved False) :
    Slot (Function.update action sig sa) want sig (action sig) True :=
  ⟨fun _ => ⟨Function.update_self .., h.2 id⟩, fun hi => absurd trivial hi⟩

theorem Slot.restore (h : Slot action want sig saved True) :
    Slot (Function.update action sig saved) want sig saved False :=
  ⟨False.elim, fun _ => (Function.update_self ..).trans (h.1 trivial).2⟩

/-- Another signal changes. -/
theorem Slot.update (h : Slot action want sig saved ignored) (act : Sigaction) (hne : sig ≠ sig') :
    Slot (Function.update action sig' act) want sig saved ignored := by
  unfold Slot
  rw [Function.update_of_ne hne]
  exact h

/-- The program sets this signal or another one. -/
theorem Slot.set (h : Slot action want sig saved ignored) (act : Sigaction)
    (hne : sig' = sig → ¬ ignored) :
    Slot (Function.update action sig' act) (Function.update want sig' act) sig saved ignored := by
  by_cases heq : sig' = sig
  · subst heq
    exact ⟨fun hi => absurd hi (hne rfl), fun _ => by
      rw [Function.update_self, Function.update_self]⟩
  · unfold Slot
    rw [Function.update_of_ne (Ne.symm heq), Function.update_of_ne (Ne.symm heq)]
    exact h

end Slot

/-- What the lock protects, and what the program wants. -/
structure Data where
  action : Nat → Sigaction
  intr : Sigaction
  quit : Sigaction
  sa_refcntr : Int
  want : Nat → Sigaction

def State.data {ι : Type} (s : State ι) : Data :=
  ⟨s.action, s.intr, s.quit, s.sa_refcntr, s.want⟩

/-- Whether `SIGINT` and `SIGQUIT` are ignored now; the other signals are as the program wants. -/
structure Data.Ignores (d : Data) (int quit : Prop) : Prop where
  other : ∀ sig, sig ≠ SIGINT → sig ≠ SIGQUIT → d.action sig = d.want sig
  sigint : Slot d.action d.want SIGINT d.intr int
  sigquit : Slot d.action d.want SIGQUIT d.quit quit

/-- While the lock is free. -/
def Data.Settled (d : Data) : Prop := d.Ignores (d.sa_refcntr ≠ 0) (d.sa_refcntr ≠ 0)

/-- While a thread at this program point holds it. -/
def Data.At (d : Data) : Pc → Prop
  | .setInt | .undoInt => d.sa_refcntr = 1 ∧ d.Ignores False False
  | .setQuit | .undoQuit => d.sa_refcntr = 1 ∧ d.Ignores True False
  | .undoneQuit | .restoreInt _ _ | .cancelQuit => d.sa_refcntr = 0 ∧ d.Ignores True True
  | .undoneInt | .cancelInt => d.sa_refcntr = 0 ∧ d.Ignores True False
  | .restoreQuit _ _ _ => d.sa_refcntr = 0 ∧ d.Ignores False True
  | _ => d.Settled

variable {d : Data} {int quit : Prop}

theorem Data.Ignores.settled (h : d.Ignores int quit) (hint : d.sa_refcntr ≠ 0 ↔ int)
    (hquit : d.sa_refcntr ≠ 0 ↔ quit) : d.Settled :=
  ⟨h.other, h.sigint.of_iff hint, h.sigquit.of_iff hquit⟩

theorem Data.Ignores.setInt (h : d.Ignores False quit) : Data.Ignores { d with
    intr := d.action SIGINT, action := Function.update d.action SIGINT sa } True quit :=
  ⟨fun sig hint hquit => (Function.update_of_ne hint ..).trans (h.other sig hint hquit),
    h.sigint.ignore, h.sigquit.update sa (by decide)⟩

theorem Data.Ignores.setQuit (h : d.Ignores int False) : Data.Ignores { d with
    quit := d.action SIGQUIT, action := Function.update d.action SIGQUIT sa } int True :=
  ⟨fun sig hint hquit => (Function.update_of_ne hquit ..).trans (h.other sig hint hquit),
    h.sigint.update sa (by decide), h.sigquit.ignore⟩

theorem Data.Ignores.restoreInt (h : d.Ignores True quit) : Data.Ignores { d with
    action := Function.update d.action SIGINT d.intr } False quit :=
  ⟨fun sig hint hquit => (Function.update_of_ne hint ..).trans (h.other sig hint hquit),
    h.sigint.restore, h.sigquit.update d.intr (by decide)⟩

theorem Data.Ignores.restoreQuit (h : d.Ignores int True) : Data.Ignores { d with
    action := Function.update d.action SIGQUIT d.quit } int False :=
  ⟨fun sig hint hquit => (Function.update_of_ne hquit ..).trans (h.other sig hint hquit),
    h.sigint.update d.quit (by decide), h.sigquit.restore⟩

/-- The counter changes. -/
theorem Data.Ignores.counter (h : d.Ignores int quit) (n : Int) :
    Data.Ignores { d with sa_refcntr := n } int quit :=
  ⟨h.other, h.sigint, h.sigquit⟩

/-- The program sets a signal that is not ignored for it now. -/
theorem Data.Ignores.set (h : d.Ignores int quit) (sig : Nat) (act : Sigaction)
    (hint : sig = SIGINT → ¬ int) (hquit : sig = SIGQUIT → ¬ quit) : Data.Ignores { d with
    action := Function.update d.action sig act, want := Function.update d.want sig act }
    int quit := by
  refine ⟨fun other hoint hoquit => ?_, h.sigint.set act hint, h.sigquit.set act hquit⟩
  show Function.update d.action sig act other = Function.update d.want sig act other
  by_cases heq : other = sig
  · rw [heq, Function.update_self, Function.update_self]
  · rw [Function.update_of_ne heq, Function.update_of_ne heq]
    exact h.other other hoint hoquit

/-- Before the first thread, and behind the last one. -/
theorem Data.Settled.ignores_false (h : d.Settled) (hzero : d.sa_refcntr = 0) :
    d.Ignores False False :=
  ⟨h.other, h.sigint.of_iff (iff_of_false id (fun hne => hne hzero)),
    h.sigquit.of_iff (iff_of_false id (fun hne => hne hzero))⟩

/-- While some thread is in `do_system`. -/
theorem Data.Settled.ignores_true (h : d.Settled) (hne : d.sa_refcntr ≠ 0) :
    d.Ignores True True :=
  ⟨h.other, h.sigint.of_iff (iff_of_true trivial hne), h.sigquit.of_iff (iff_of_true trivial hne)⟩

theorem Data.Ignores.settled_true (h : d.Ignores True True) (hne : d.sa_refcntr ≠ 0) :
    d.Settled :=
  h.settled (iff_of_true hne trivial) (iff_of_true hne trivial)

theorem Data.Ignores.settled_false (h : d.Ignores False False) (hzero : d.sa_refcntr = 0) :
    d.Settled :=
  h.settled (iff_of_false (fun hne => hne hzero) id) (iff_of_false (fun hne => hne hzero) id)

/-! ## What the threads know -/

/-- The signals that get the default action in the shell of 2.32. -/
def resets (want : Nat → Sigaction) : Finset Nat :=
  (if (want SIGINT).sa_handler ≠ .ign then {SIGINT} else ∅) ∪
    (if (want SIGQUIT).sa_handler ≠ .ign then {SIGQUIT} else ∅)

/-- What a thread at a program point knows of its mask and of the local variables of
`do_system`. -/
def Pc.Knows (v : Version) (want : Nat → Sigaction) (mask entry : Finset Nat) (last : Bool) :
    Pc → Prop
  | .idle | .unlockLast _ =>
    mask = if v = .v2_32 ∧ last = false then entry ∪ {SIGCHLD} else entry
  | .lock | .addRef | .setInt | .setQuit | .unlock | .block => mask = entry
  | .undoInt | .undoQuit | .relock | .undoBlock | .undoneQuit | .undoneInt | .out =>
    v = .v2_27 ∧ mask = entry
  | .testInt omask => v = .v2_32 ∧ omask = entry ∧ mask = entry ∪ {SIGCHLD}
  | .testQuit omask reset =>
    v = .v2_32 ∧ omask = entry ∧ mask = entry ∪ {SIGCHLD} ∧
      reset = if (want SIGINT).sa_handler ≠ .ign then {SIGINT} else ∅
  | .spawn omask reset =>
    omask = entry ∧ mask = entry ∪ {SIGCHLD} ∧ (v = .v2_32 → reset = resets want)
  | .wait omask | .lockLast omask _ | .subRef omask _ =>
    omask = entry ∧ mask = entry ∪ {SIGCHLD}
  | .restoreInt omask _ | .restoreQuit omask _ false =>
    omask = entry ∧ mask = entry ∪ {SIGCHLD} ∧ last = true
  | .restoreQuit _ _ true => False
  | .restoreMask omask _ =>
    omask = entry ∧ mask = entry ∪ {SIGCHLD} ∧ (v = .v2_32 → last = true)
  | .cancelled | .cancelLock | .cancelSub | .cancelQuit | .cancelInt | .cancelUnlock | .ended =>
    v = .v2_32

/-- The invariant. -/
structure Inv {ι : Type} (v : Version) (s : State ι) : Prop where
  monitor : Monitor.Inv Pc.holds Data.Settled (fun p d => d.At p) s.lock s.pc s.data
  counted : ∃ n : Nat, s.sa_refcntr = n ∧ Counted (fun i => (s.pc i).counted = true) n
  knows : ∀ i, (s.pc i).Knows v s.want (s.mask i) (s.entry i) (s.last i)
  shells : ∀ x ∈ s.shells, x.sig = onExec x.caller

/-- The calls that can fail: not those that set back what was there before, and in 2.32 not those
of which the source says so. -/
def Pc.MayFail (v : Version) : Pc → Prop
  | .undoneQuit | .undoneInt | .restoreInt _ _ | .restoreQuit _ _ _ | .restoreMask _ _
  | .cancelQuit | .cancelInt => False
  | .setInt | .setQuit | .block => v = .v2_27
  | _ => True

/-- The other calls do not fail, and the program sets the two signals only while no thread is in
`system`. -/
def Reliable {ι : Type} (v : Version) (s : State ι) : Act ι → Prop
  | .step i ans => ans = .fail → (s.pc i).MayFail v
  | .sigaction sig _ => sig = SIGINT ∨ sig = SIGQUIT → ∀ i, s.pc i = .idle ∨ s.pc i = .ended
  | _ => True

/-! ## One step of `do_system` -/

section Step

variable {ι : Type} [DecidableEq ι] {v : Version} {stack : Finset Nat} {s s' : State ι} {i : ι}
  {ans : Answer}

/-- The reference of a thread. -/
def Pc.ref (pc : Pc) : Int := if pc.counted then 1 else 0

/-- What a step of thread `i` leaves alone, and what it does to the counter. -/
structure Moves (s s' : State ι) (i : ι) (p : Pc) : Prop where
  pc : s'.pc = Function.update s.pc i p
  counter : s'.sa_refcntr + (s.pc i).ref = s.sa_refcntr + p.ref
  want : s'.want = s.want
  entry : s'.entry = s.entry
  mask : ∀ j, j ≠ i → s'.mask j = s.mask j
  last : ∀ j, j ≠ i → s'.last j = s.last j

theorem doSystem_moves (h : doSystem v stack s i ans = some s') : ∃ p, Moves s s' i p := by
  unfold doSystem at h
  split at h <;> rename_i hpc <;> (try split at h) <;> (try split at h) <;> cases h <;>
    refine ⟨_, rfl, ?_, rfl, rfl, fun j hj => ?_, fun j hj => ?_⟩ <;>
    simp_all [Pc.ref, Pc.counted, State.goto, State.ret, State.sigaction, State.sigprocmask] <;>
    omega

variable {p : Pc}

/-- The counter still is the number of the threads that have a reference. -/
theorem Moves.counted (h : Moves s s' i p)
    (hcount : ∃ n : Nat, s.sa_refcntr = n ∧ Counted (fun i => (s.pc i).counted = true) n) :
    ∃ n : Nat, s'.sa_refcntr = n ∧ Counted (fun i => (s'.pc i).counted = true) n := by
  obtain ⟨n, hn, hcount⟩ := hcount
  have hcounter := h.counter
  rw [h.pc]
  unfold Pc.ref at hcounter
  cases hfrom : (s.pc i).counted <;> cases hto : p.counted <;>
    simp only [hfrom, hto, Bool.false_eq_true, if_true, if_false] at hcounter
  · exact ⟨n, by omega, hcount.update_same (hto.trans hfrom.symm)⟩
  · exact ⟨n + 1, by omega, hcount.update_enter hfrom hto⟩
  · obtain ⟨m, rfl⟩ : ∃ m, n = m + 1 :=
      Nat.exists_eq_succ_of_ne_zero (hcount.pos (i := i) hfrom).ne'
    exact ⟨m, by omega, hcount.update_leave hfrom hto⟩
  · exact ⟨n, by omega, hcount.update_same (hto.trans hfrom.symm)⟩

/-- What the other threads know stays true. -/
theorem Moves.knows (h : Moves s s' i p)
    (hknows : ∀ j, (s.pc j).Knows v s.want (s.mask j) (s.entry j) (s.last j))
    (hself : (s'.pc i).Knows v s'.want (s'.mask i) (s'.entry i) (s'.last i)) :
    ∀ j, (s'.pc j).Knows v s'.want (s'.mask j) (s'.entry j) (s'.last j) := by
  intro j
  by_cases hj : j = i
  · rw [hj]
    exact hself
  · rw [h.pc, h.want, h.entry, Function.update_of_ne hj, h.mask j hj, h.last j hj]
    exact hknows j

omit [DecidableEq ι] in
/-- A thread that has a reference and does not hold the lock: the signals are ignored. -/
theorem Inv.ignores (h : Inv v s) (hc : (s.pc i).counted = true) (hout : (s.pc i).holds = false) :
    s.data.Ignores True True := by
  obtain ⟨n, hn, hcount⟩ := h.counted
  have hpos := hcount.pos (i := i) hc
  have hne : s.data.sa_refcntr ≠ 0 := by
    show s.sa_refcntr ≠ 0
    omega
  have hsettled : s.data.Settled := by
    rcases h.monitor.cases with hfree | ⟨j, hj, hat⟩
    · exact hfree
    · have hji : j ≠ i := by
        rintro rfl
        rw [hout] at hj
        cases hj
      -- the one inside is not the only one, or has no reference
      have hone : s.sa_refcntr = 1 → (s.pc j).counted = true → False := by
        intro hone hjc
        obtain rfl : n = 1 := by omega
        exact hji (hcount.eq_of_one hjc hc)
      have hzero : s.sa_refcntr ≠ 0 := hne
      revert hat hj hone
      cases s.pc j <;> intro hj hat hone <;> first
        | exact hat
        | exact absurd hat.1 hzero
        | exact (hone hat.1 rfl).elim
  exact hsettled.ignores_true hne

omit [DecidableEq ι] in
/-- The counter is not 0 while a thread has a reference. -/
theorem counter_pos (hcount : ∃ n : Nat, s.sa_refcntr = n ∧
    Counted (fun i => (s.pc i).counted = true) n) (hc : (s.pc i).counted = true) :
    s.data.sa_refcntr ≠ 0 := by
  obtain ⟨n, hn, hcount⟩ := hcount
  have hpos := hcount.pos (i := i) hc
  show s.sa_refcntr ≠ 0
  omega

/-- The monitor over one step of `do_system`. -/
theorem Inv.monitor_step (h : Inv v s) (hrel : Reliable v s (.step i ans))
    (hstep : doSystem v stack s i ans = some s') :
    Monitor.Inv Pc.holds Data.Settled (fun p d => d.At p) s'.lock s'.pc s'.data := by
  have hnonneg : 0 ≤ s.sa_refcntr := by
    obtain ⟨n, hn, -⟩ := h.counted
    omega
  have hne : (s.pc i).counted = true → s.data.sa_refcntr ≠ 0 := counter_pos h.counted
  have hat := h.monitor.held i
  have hm := h.monitor
  have hi : ∀ b, (s.pc i).holds = b → (s.pc i).holds = b := fun _ => id
  have hmay : ans = .fail → (s.pc i).MayFail v := hrel
  unfold doSystem at hstep
  cases hpc : s.pc i <;> rw [hpc] at hne hat hmay <;> simp only [hpc] at hstep <;>
    replace hi := hi _ (congrArg Pc.holds hpc)
  case idle | ended | wait => cases hstep
  case lock | relock | lockLast | cancelLock =>
    split at hstep
    · rename_i hfree
      cases hstep
      exact hm.acquire hfree rfl id
    · cases hstep
  case addRef =>
    cases hstep
    refine hm.inside hi (by split <;> rfl) fun _ => ?_
    have hsettled : s.data.Settled := hat rfl
    split
    · rename_i hzero
      exact ⟨by show s.sa_refcntr + 1 = 1; omega, (hsettled.ignores_false hzero).counter _⟩
    · rename_i hzero
      refine ((hsettled.ignores_true hzero).counter _).settled_true ?_
      show s.sa_refcntr + 1 ≠ 0
      omega
  case setInt =>
    obtain ⟨hone, hfalse⟩ := hat rfl
    cases ans
    · cases hstep
      exact hm.inside hi rfl fun _ => ⟨hone, hfalse.setInt⟩
    · obtain rfl : v = .v2_27 := hmay rfl
      cases hstep
      exact hm.inside hi rfl fun _ => ⟨hone, hfalse⟩
  case undoInt =>
    obtain ⟨hone, hfalse⟩ := hat rfl
    cases hstep
    refine hm.inside hi rfl fun _ => (hfalse.counter _).settled_false ?_
    show s.sa_refcntr - 1 = 0
    exact Int.sub_eq_zero_of_eq hone
  case setQuit =>
    obtain ⟨hone, htrue⟩ := hat rfl
    cases ans
    · cases hstep
      exact hm.inside hi rfl fun _ => htrue.setQuit.settled_true (hne rfl)
    · obtain rfl : v = .v2_27 := hmay rfl
      cases hstep
      exact hm.inside hi rfl fun _ => ⟨hone, htrue⟩
  case undoQuit =>
    obtain ⟨hone, htrue⟩ := hat rfl
    cases hstep
    exact hm.inside hi rfl fun _ => ⟨Int.sub_eq_zero_of_eq hone, htrue.counter _⟩
  case unlock | out | unlockLast | cancelUnlock =>
    cases hstep
    exact hm.release hi rfl fun _ => hat rfl
  case block =>
    cases ans <;> cases v
    case fail.v2_32 => cases hmay rfl
    all_goals
      cases hstep
      exact hm.outside hi rfl
  case undoBlock | subRef | cancelSub =>
    have hsettled := (Data.Settled.ignores_true (hat rfl) (hne rfl)).counter (s.sa_refcntr - 1)
    cases hstep
    split
    · rename_i hzero
      exact hm.inside hi rfl fun _ => ⟨hzero, hsettled⟩
    · rename_i hzero
      try cases v
      all_goals exact hm.inside hi rfl fun _ => hsettled.settled_true hzero
  case undoneQuit | cancelQuit =>
    cases ans
    · obtain ⟨hzero, htrue⟩ := hat rfl
      cases hstep
      exact hm.inside hi rfl fun _ => ⟨hzero, htrue.restoreQuit⟩
    · exact (hmay rfl).elim
  case undoneInt | cancelInt =>
    cases ans
    · obtain ⟨hzero, htrue⟩ := hat rfl
      cases hstep
      exact hm.inside hi rfl fun _ => htrue.restoreInt.settled_false hzero
    · exact (hmay rfl).elim
  case restoreInt =>
    cases ans
    · obtain ⟨hzero, htrue⟩ := hat rfl
      cases hstep
      exact hm.inside hi rfl fun _ => ⟨hzero, htrue.restoreInt⟩
    · exact (hmay rfl).elim
  case restoreQuit =>
    cases ans
    · obtain ⟨hzero, htrue⟩ := hat rfl
      cases v <;> cases hstep
      · refine hm.inside hi (by split <;> rfl) fun _ => ?_
        have hsettled := htrue.restoreQuit.settled_false hzero
        split <;> exact hsettled
      · exact hm.inside hi rfl fun _ => htrue.restoreQuit.settled_false hzero
    · exact (hmay rfl).elim
  case testInt | testQuit =>
    cases hstep
    exact hm.outside hi rfl
  case spawn =>
    cases ans <;> cases hstep <;> exact hm.outside hi rfl
  case restoreMask =>
    cases ans
    · cases hstep
      exact hm.inside hi rfl fun _ => hat rfl
    · exact (hmay rfl).elim
  case cancelled =>
    cases hstep
    exact hm.outside hi rfl

/-- What thread `i` knows behind its step. -/
theorem Inv.knows_step (h : Inv v s) (hrel : Reliable v s (.step i ans))
    (hstep : doSystem v stack s i ans = some s') :
    (s'.pc i).Knows v s'.want (s'.mask i) (s'.entry i) (s'.last i) := by
  have hk := h.knows i
  have hig : (s.pc i).counted = true → (s.pc i).holds = false → s.data.Ignores True True :=
    h.ignores
  have hmay : ans = .fail → (s.pc i).MayFail v := hrel
  unfold doSystem at hstep
  cases hpc : s.pc i <;> rw [hpc] at hk hmay hig <;> simp only [hpc] at hstep
  case idle | ended | wait => cases hstep
  case lock | relock | lockLast | cancelLock =>
    split at hstep
    · cases hstep
      simp only [State.goto, Function.update_self]
      exact hk
    · cases hstep
  case addRef =>
    cases hstep
    simp only [State.goto, Function.update_self]
    split <;> exact hk
  case setInt | setQuit =>
    cases ans <;> cases v
    case fail.v2_32 => cases hmay rfl
    all_goals
      cases hstep
      simp only [State.goto, Function.update_self]
      first | exact hk | exact ⟨rfl, hk⟩
  case undoInt | undoQuit | unlock | cancelled | cancelUnlock =>
    cases hstep
    simp only [State.goto, Function.update_self]
    exact hk
  case block =>
    have hmask : s.mask i = s.entry i := hk
    cases ans <;> cases v
    case fail.v2_32 => cases hmay rfl
    all_goals
      cases hstep
      simp only [State.goto, State.sigprocmask, Function.update_self]
    · exact ⟨hmask, by rw [hmask]; rfl, nofun⟩
    · exact ⟨rfl, hmask, by rw [hmask]; rfl⟩
    · exact ⟨rfl, hmask⟩
  case undoBlock =>
    cases hstep
    simp only [State.goto, Function.update_self]
    split <;> exact hk
  case undoneQuit | undoneInt | cancelQuit | cancelInt =>
    cases ans
    · cases hstep
      simp only [State.goto, State.sigaction, Function.update_self]
      exact hk
    · exact (hmay rfl).elim
  case out =>
    obtain ⟨rfl, hmask⟩ := hk
    cases hstep
    simp only [State.ret, Function.update_self]
    exact hmask
  case testInt =>
    obtain ⟨hv, homask, hmask⟩ := hk
    have hintr : s.intr = s.want SIGINT := ((hig rfl rfl).sigint.1 trivial).2
    cases hstep
    simp only [State.goto, Function.update_self, hintr]
    exact ⟨hv, homask, hmask, rfl⟩
  case testQuit =>
    obtain ⟨hv, homask, hmask, hreset⟩ := hk
    have hquit : s.quit = s.want SIGQUIT := ((hig rfl rfl).sigquit.1 trivial).2
    cases hstep
    simp only [State.goto, Function.update_self, hquit]
    refine ⟨homask, hmask, fun _ => ?_⟩
    unfold resets
    rw [hreset]
    split
    · rfl
    · rw [Finset.union_empty]
  case spawn =>
    cases ans <;> cases hstep <;> simp only [State.goto, Function.update_self] <;>
      exact ⟨hk.1, hk.2.1⟩
  case subRef =>
    obtain ⟨homask, hmask⟩ := hk
    cases hstep
    simp only [State.goto, Function.update_self]
    split
    · exact ⟨homask, hmask, decide_eq_true (by omega)⟩
    · rename_i hzero
      cases v
      · exact ⟨homask, hmask, nofun⟩
      · have hlast : decide (s.sa_refcntr = 1) = false := decide_eq_false (by omega)
        simp only [hlast]
        exact hmask
  case restoreInt =>
    cases ans
    · cases hstep
      simp only [State.goto, State.sigaction, Function.update_self]
      exact hk
    · exact (hmay rfl).elim
  case restoreQuit omask status failed =>
    cases ans
    · cases failed
      · cases v <;> cases hstep <;>
          simp only [State.goto, State.sigaction, Function.update_self] <;>
          exact ⟨hk.1, hk.2.1, fun _ => hk.2.2⟩
      · exact hk.elim
    · exact (hmay rfl).elim
  case restoreMask =>
    obtain ⟨homask, hmask, hlast⟩ := hk
    cases ans
    · cases hstep
      simp only [State.goto, State.sigprocmask, Function.update_self]
      refine homask.trans (if_neg ?_).symm
      rintro ⟨hv, hfalse⟩
      rw [hlast hv] at hfalse
      cases hfalse
    · exact (hmay rfl).elim
  case unlockLast =>
    cases hstep
    simp only [State.ret, Function.update_self]
    exact hk
  case cancelSub =>
    cases hstep
    simp only [State.goto, Function.update_self]
    split <;> exact hk

end Step

/-! ## The shells -/

section Shells

variable {action want : Nat → Sigaction} {intr quit : Sigaction}

theorem onExec_congr {σ τ : SigState} (hmask : σ.mask = τ.mask)
    (haction : ∀ sig, (σ.action sig).sa_handler = .ign ↔ (τ.action sig).sa_handler = .ign) :
    onExec σ = onExec τ := by
  have hsame : (onExec σ).action = (onExec τ).action := by
    funext sig
    have hiff := haction sig
    simp only [onExec]
    split <;> split <;> simp_all
  unfold onExec at hsame ⊢
  rw [SigState.mk.injEq]
  exact ⟨hsame, hmask⟩

/-- 2.27 sets back what it has saved. -/
theorem forked_eq (d : Data) (h : d.Ignores True True) (omask : Finset Nat) :
    forked d.action d.intr d.quit omask = onExec ⟨d.want, omask⟩ := by
  refine congrArg onExec (congrArg (SigState.mk · omask) (funext fun sig => ?_))
  by_cases hquit : sig = SIGQUIT
  · rw [hquit, Function.update_self]
    exact (h.sigquit.1 trivial).2
  · rw [Function.update_of_ne hquit]
    by_cases hint : sig = SIGINT
    · rw [hint, Function.update_self]
      exact (h.sigint.1 trivial).2
    · rw [Function.update_of_ne hint]
      exact h.other sig hint hquit

theorem mem_resets {sig : Nat} : sig ∈ resets want ↔
    (sig = SIGINT ∨ sig = SIGQUIT) ∧ (want sig).sa_handler ≠ .ign := by
  unfold resets
  rw [Finset.mem_union]
  constructor
  · rintro (h | h) <;> split at h
    · rename_i hne
      obtain rfl := Finset.mem_singleton.mp h
      exact ⟨.inl rfl, hne⟩
    · exact absurd h (Finset.notMem_empty _)
    · rename_i hne
      obtain rfl := Finset.mem_singleton.mp h
      exact ⟨.inr rfl, hne⟩
    · exact absurd h (Finset.notMem_empty _)
  · rintro ⟨rfl | rfl, hne⟩
    · exact .inl (by rw [if_pos hne]; exact Finset.mem_singleton_self _)
    · exact .inr (by rw [if_pos hne]; exact Finset.mem_singleton_self _)

/-- 2.32 leaves them ignored where the program has them ignored, and sets the default action where
it catches them or not: `execve` makes no difference between these. -/
theorem spawned_eq (d : Data) (h : d.Ignores True True) (omask : Finset Nat) :
    spawned d.action omask (resets d.want) = onExec ⟨d.want, omask⟩ := by
  refine onExec_congr rfl fun sig => ?_
  show (if sig ∈ resets d.want then (⟨.dfl, ∅, 0⟩ : Sigaction)
    else d.action sig).sa_handler = .ign ↔ (d.want sig).sa_handler = .ign
  by_cases htwo : sig = SIGINT ∨ sig = SIGQUIT
  · have hign : (d.action sig).sa_handler = .ign := by
      rcases htwo with rfl | rfl
      · rw [(h.sigint.1 trivial).1]
        rfl
      · rw [(h.sigquit.1 trivial).1]
        rfl
    split
    · rename_i hmem
      exact iff_of_false nofun (mem_resets.mp hmem).2
    · rename_i hmem
      exact iff_of_true hign (by_contra fun hne => hmem (mem_resets.mpr ⟨htwo, hne⟩))
  · obtain ⟨hint, hquit⟩ := not_or.mp htwo
    rw [if_neg (fun hmem => htwo (mem_resets.mp hmem).1), h.other sig hint hquit]

variable {ι : Type} [DecidableEq ι] {v : Version} {stack : Finset Nat} {s s' : State ι} {i : ι}
  {ans : Answer}

/-- A step starts no shell, or one with the signals of its caller. -/
theorem Inv.shells_step (h : Inv v s) (hstep : doSystem v stack s i ans = some s') :
    ∀ x ∈ s'.shells, x.sig = onExec x.caller := by
  have hk := h.knows i
  have hig : (s.pc i).counted = true → (s.pc i).holds = false → s.data.Ignores True True :=
    h.ignores
  unfold doSystem at hstep
  cases hpc : s.pc i <;> rw [hpc] at hk hig <;> simp only [hpc] at hstep
  case spawn omask reset =>
    cases ans <;> cases hstep
    · intro x hx
      rcases List.mem_append.mp hx with hx | hx
      · exact h.shells x hx
      · obtain rfl := List.mem_singleton.mp hx
        obtain ⟨homask, -, hreset⟩ := hk
        have hshell := hig rfl rfl
        cases v
        · exact homask ▸ forked_eq s.data hshell omask
        · obtain rfl := hreset rfl
          exact homask ▸ spawned_eq s.data hshell omask
    · exact h.shells
  all_goals
    (try split at hstep) <;> cases hstep <;> exact h.shells

end Shells

/-! ## Runs -/

section Run

variable {ι : Type} [DecidableEq ι] {v : Version} {stack : Finset Nat} {s s' : State ι}

/-- A thread that does not hold the lock moves to a program point of the same kind, with its own
data only. -/
theorem Inv.own (h : Inv v s) {i : ι} {p : Pc} (hi : (s.pc i).holds = false)
    (hp : p.holds = false) (hsame : p.counted = (s.pc i).counted) (hlock : s'.lock = s.lock)
    (hpc : s'.pc = Function.update s.pc i p) (hdata : s'.data = s.data)
    (hshells : s'.shells = s.shells)
    (hother : ∀ j, j ≠ i →
      s'.mask j = s.mask j ∧ s'.entry j = s.entry j ∧ s'.last j = s.last j)
    (hknows : p.Knows v s.want (s'.mask i) (s'.entry i) (s'.last i)) : Inv v s' where
  monitor := by
    rw [hlock, hpc, hdata]
    exact h.monitor.outside hi hp
  counted := by
    obtain ⟨n, hn, hcount⟩ := h.counted
    rw [hpc]
    exact ⟨n, (congrArg Data.sa_refcntr hdata).trans hn, hcount.update_same hsame⟩
  knows j := by
    have hwant : s'.want = s.want := congrArg Data.want hdata
    rw [hpc, hwant]
    by_cases hj : j = i
    · rw [hj, Function.update_self]
      exact hknows
    · obtain ⟨hmask, hentry, hlast⟩ := hother j hj
      rw [Function.update_of_ne hj, hmask, hentry, hlast]
      exact h.knows j
  shells := by
    rw [hshells]
    exact h.shells

/-- It goes on. -/
theorem Inv.goto (h : Inv v s) {i : ι} {p : Pc} (hi : (s.pc i).holds = false)
    (hp : p.holds = false) (hsame : p.counted = (s.pc i).counted)
    (hknows : p.Knows v s.want (s.mask i) (s.entry i) (s.last i)) : Inv v (s.goto i p) :=
  h.own hi hp hsame rfl rfl rfl rfl (fun _ _ => ⟨rfl, rfl, rfl⟩) hknows

omit [DecidableEq ι] in
/-- The program sets a disposition. -/
theorem Inv.sigaction (h : Inv v s) {sig : Nat} {act : Sigaction}
    (hrel : sig = SIGINT ∨ sig = SIGQUIT → ∀ i, s.pc i = .idle ∨ s.pc i = .ended) :
    Inv v { s.sigaction sig act with want := Function.update s.want sig act } := by
  have hout : sig = SIGINT ∨ sig = SIGQUIT →
      ∀ i, (s.pc i).holds = false ∧ (s.pc i).counted = false := by
    intro htwo i
    rcases hrel htwo i with hpc | hpc <;> rw [hpc] <;> exact ⟨rfl, rfl⟩
  refine ⟨?_, h.counted, fun i => ?_, h.shells⟩
  · by_cases htwo : sig = SIGINT ∨ sig = SIGQUIT
    · have hzero : s.data.sa_refcntr = 0 := by
        obtain ⟨n, hn, hcount⟩ := h.counted
        have hnone := hcount.eq_zero_iff.mpr fun i =>
          (hout htwo i).2 ▸ Bool.false_ne_true
        show s.sa_refcntr = 0
        omega
      have hfree : s.data.Settled → s.data.Ignores False False :=
        fun hs => hs.ignores_false hzero
      refine ⟨h.monitor.owned, fun hlock => ?_, fun i hi => ?_⟩
      · exact ((hfree (h.monitor.free hlock)).set sig act (fun _ => id) fun _ => id).settled_false
          hzero
      · exact absurd ((hout htwo i).1.symm.trans hi) Bool.false_ne_true
    · obtain ⟨hint, hquit⟩ := not_or.mp htwo
      have hset : ∀ {int quit : Prop}, s.data.Ignores int quit → Data.Ignores { s.data with
          action := Function.update s.action sig act
          want := Function.update s.want sig act } int quit :=
        fun hd => hd.set sig act (absurd · hint) (absurd · hquit)
      refine h.monitor.change hset fun p hat => ?_
      cases p <;> first | exact hset hat | exact ⟨hat.1, hset hat.2⟩
  · show (s.pc i).Knows v (Function.update s.want sig act) (s.mask i) (s.entry i) (s.last i)
    have hk := h.knows i
    by_cases htwo : sig = SIGINT ∨ sig = SIGQUIT
    · rcases hrel htwo i with hpc | hpc <;> rw [hpc] at hk ⊢ <;> exact hk
    · obtain ⟨hint, hquit⟩ := not_or.mp htwo
      have hresets : resets (Function.update s.want sig act) = resets s.want := by
        unfold resets
        rw [Function.update_of_ne (Ne.symm hint), Function.update_of_ne (Ne.symm hquit)]
      cases hpc : s.pc i <;> rw [hpc] at hk <;>
        simp only [Pc.Knows, hresets, Function.update_of_ne (Ne.symm hint)] at hk ⊢ <;> exact hk

/-- **Step lemma.** -/
theorem Inv.step (h : Inv v s) {a : Act ι} (hrel : Reliable v s a)
    (hstep : step v stack s a = some s') : Inv v s' := by
  cases a with
  | call i line =>
    simp only [LibcSystem.step] at hstep
    split at hstep
    · rename_i hpc
      cases hstep
      refine h.own (i := i) (p := .lock) (by rw [hpc]; rfl) rfl (by rw [hpc]; rfl) rfl rfl rfl rfl
        (fun j hj => ⟨rfl, Function.update_of_ne hj .., rfl⟩) ?_
      show s.mask i = Function.update s.entry i (s.mask i) i
      rw [Function.update_self]
    · cases hstep
  | step i ans =>
    obtain ⟨p, hmoves⟩ := doSystem_moves hstep
    exact ⟨h.monitor_step hrel hstep, hmoves.counted h.counted,
      hmoves.knows h.knows (h.knows_step hrel hstep), h.shells_step hstep⟩
  | waited i r =>
    have hk := h.knows i
    simp only [LibcSystem.step] at hstep
    split at hstep
    · rename_i hpc
      rw [hpc] at hk
      cases hstep
      exact h.goto (by rw [hpc]; rfl) rfl (by rw [hpc]; rfl) hk
    · cases hstep
      exact h
    · rename_i hpc
      rw [hpc] at hk
      cases hstep
      exact h.goto (by rw [hpc]; rfl) rfl (by rw [hpc]; rfl) hk
    · cases hstep
  | cancel i =>
    simp only [LibcSystem.step] at hstep
    split at hstep
    · rename_i hpc
      cases hstep
      exact h.goto (by rw [hpc]; rfl) rfl (by rw [hpc]; rfl) rfl
    · cases hstep
  | sigaction sig act =>
    cases hstep
    exact h.sigaction hrel
  | sigmask i set =>
    simp only [LibcSystem.step] at hstep
    split at hstep
    · rename_i hpc
      cases hstep
      refine h.own (i := i) (p := .idle) (by rw [hpc]; rfl) rfl (by rw [hpc]) rfl
        (hpc ▸ (Function.update_eq_self i s.pc).symm) rfl rfl
        (fun j hj => ⟨Function.update_of_ne hj .., Function.update_of_ne hj ..,
          Function.update_of_ne hj ..⟩) ?_
      simp only [Pc.Knows, Function.update_self, Bool.true_eq_false, and_false, if_false]
    · cases hstep

omit [DecidableEq ι] in
theorem Inv.initial (action : Nat → Sigaction) (mask : ι → Finset Nat) (intr quit : Sigaction) :
    Inv v (State.initial action mask intr quit) where
  monitor := .initial (fun _ => rfl)
    ⟨fun _ _ _ => rfl, ⟨fun hne => absurd rfl hne, fun _ => rfl⟩,
      ⟨fun hne => absurd rfl hne, fun _ => rfl⟩⟩
  counted := ⟨0, rfl, .zero fun _ => Bool.false_ne_true⟩
  knows _ := (if_neg fun h => nomatch h.2).symm
  shells := nofun

/-- **Run lemma.** -/
theorem inv_of_reliable {as : List (Act ι)} {s₀ : State ι} (hinit : (machine ι v stack).init s₀)
    (hrel : (machine ι v stack).AllSteps (Reliable v) s₀ as)
    (hrun : (machine ι v stack).exec s₀ as = some s) : Inv v s := by
  obtain ⟨action, mask, intr, quit, rfl⟩ := hinit
  exact Machine.exec_guarded_induction (fun _ _ _ h hr hn => h.step hr hn) (.initial ..) hrel hrun

/-- An action that is reliable in every state. -/
def Act.succeeds : Act ι → Bool
  | .step _ .fail | .sigaction _ _ => false
  | _ => true

theorem reliable_of_succeeds {as : List (Act ι)} {s₀ : State ι}
    (h : ∀ a ∈ as, a.succeeds = true) : (machine ι v stack).AllSteps (Reliable v) s₀ as := by
  refine (Machine.allSteps_of_labels (L := fun a => a.succeeds = true) h).mono fun s a ha => ?_
  cases a with
  | step i ans =>
    cases ans
    · exact nofun
    · cases ha
  | sigaction sig act => cases ha
  | call | waited | cancel | sigmask => trivial

/-- Two threads of a program that catches `SIGINT`, whose calls of `system` overlap. -/
def overlapping : List (Act Bool) :=
  [.call true none] ++ List.replicate 9 (.step true .ok) ++
    [.call false none] ++ List.replicate 7 (.step false .ok) ++
    [.waited true (.done 0)] ++ List.replicate 3 (.step true .ok)

/-- Then the other thread leaves, too. -/
def bothLeave : List (Act Bool) :=
  overlapping ++ [.waited false .error] ++ List.replicate 6 (.step false .ok)

/-- The program they belong to. -/
def catching : State Bool :=
  .initial (fun sig => if sig = SIGINT then ⟨.fn 1, ∅, 0⟩ else ⟨.dfl, ∅, 0⟩) (fun _ => ∅) sa sa

variable {as : List (Act ι)} {s₀ : State ι}

/-- While no thread has a reference or the lock, **the dispositions of the process** are what the
program has set; while a thread waits for its shell the two signals are ignored and its `SIGCHLD`
is blocked. -/
theorem dispositions_restored (hinit : (machine ι v stack).init s₀)
    (hrel : (machine ι v stack).AllSteps (Reliable v) s₀ as)
    (hrun : (machine ι v stack).exec s₀ as = some s) :
    (s.lock = none → (∀ i, (s.pc i).counted = false) → s.action = s.want) ∧
      ∀ i omask, s.pc i = .wait omask →
        s.action SIGINT = sa ∧ s.action SIGQUIT = sa ∧ SIGCHLD ∈ s.mask i ∧ omask = s.entry i := by
  have h : Inv v s := inv_of_reliable hinit hrel hrun
  refine ⟨fun hlock hnone => funext fun sig => ?_, fun i omask hpc => ?_⟩
  · obtain ⟨n, hn, hcount⟩ := h.counted
    have hzero : s.data.sa_refcntr = 0 := by
      have hn0 := hcount.eq_zero_iff.mpr fun i => (hnone i) ▸ Bool.false_ne_true
      show s.sa_refcntr = 0
      omega
    have hd := (h.monitor.free hlock).ignores_false hzero
    by_cases hint : sig = SIGINT
    · rw [hint]
      exact hd.sigint.2 id
    · by_cases hquit : sig = SIGQUIT
      · rw [hquit]
        exact hd.sigquit.2 id
      · exact hd.other sig hint hquit
  · have hd := h.ignores (i := i) (by rw [hpc]; rfl) (by rw [hpc]; rfl)
    obtain ⟨homask, hmask⟩ : omask = s.entry i ∧ s.mask i = s.entry i ∪ {SIGCHLD} := by
      have hk := h.knows i
      rw [hpc] at hk
      exact hk
    refine ⟨(hd.sigint.1 trivial).1, (hd.sigquit.1 trivial).1, ?_, homask⟩
    rw [hmask]
    exact Finset.mem_union_right _ (Finset.mem_singleton_self _)

/-- In 2.32, one thread has left and the other one waits; then it leaves, too. -/
theorem dispositions_restored_overlapping : ∃ s t,
    (machine Bool .v2_32 ∅).exec catching overlapping = some s ∧ s.action SIGINT = sa ∧
      (machine Bool .v2_32 ∅).exec catching bothLeave = some t ∧ t.action = t.want ∧
        t.want SIGINT = ⟨.fn 1, ∅, 0⟩ := by
  refine ⟨_, _, rfl, ?_, rfl, ?_, rfl⟩
  · have hrun : (machine Bool .v2_32 ∅).exec catching overlapping = some _ := rfl
    exact ((dispositions_restored ⟨_, _, _, _, rfl⟩ (reliable_of_succeeds (by decide)) hrun).2
      false ∅ rfl).1
  · have hrun : (machine Bool .v2_32 ∅).exec catching bothLeave = some _ := rfl
    exact (dispositions_restored ⟨_, _, _, _, rfl⟩ (reliable_of_succeeds (by decide)) hrun).1 rfl
      (by decide)

/-- **Every shell**, in both versions, begins with what `execve` makes of the dispositions that the
program has set and of the mask of the caller. -/
theorem shells_begin (hinit : (machine ι v stack).init s₀)
    (hrel : (machine ι v stack).AllSteps (Reliable v) s₀ as)
    (hrun : (machine ι v stack).exec s₀ as = some s) : ∀ x ∈ s.shells, x.sig = onExec x.caller :=
  (inv_of_reliable hinit hrel hrun).shells

/-- The shell of the second thread, which is started while the signals are ignored. -/
theorem shells_begin_overlapping : ∃ s x,
    (machine Bool .v2_32 ∅).exec catching overlapping = some s ∧ s.shells[1]? = some x ∧
      x.sig = onExec x.caller := by
  refine ⟨_, _, rfl, rfl, ?_⟩
  have hrun : (machine Bool .v2_32 ∅).exec catching overlapping = some _ := rfl
  exact shells_begin ⟨_, _, _, _, rfl⟩ (reliable_of_succeeds (by decide)) hrun _
    (List.mem_of_getElem? (i := 1) rfl)

/-- A thread finds the counter to be 0 when no other thread has a reference. -/
theorem Inv.last_iff (h : Inv v s) {i : ι} {omask : Finset Nat} {status : Int} {ans : Answer}
    (hpc : s.pc i = .subRef omask status) (hstep : doSystem v stack s i ans = some s') :
    s'.last i = true ↔ ∀ j, j ≠ i → (s.pc j).counted = false := by
  obtain ⟨n, hn, hcount⟩ := h.counted
  have hi : (s.pc i).counted = true := by
    rw [hpc]
    rfl
  have hlast : s'.last i = decide (s.sa_refcntr = 1) := by
    unfold doSystem at hstep
    simp only [hpc] at hstep
    cases hstep
    exact Function.update_self ..
  have hleave := hcount.pos (i := i) hi
  obtain ⟨m, rfl⟩ : ∃ m, n = m + 1 := Nat.exists_eq_succ_of_ne_zero hleave.ne'
  have hrest := (hcount.update_leave (a := .idle) hi rfl).eq_zero_iff
  rw [hlast, decide_eq_true_iff, hn]
  have hone : ((m + 1 : Nat) : Int) = 1 ↔ m = 0 := by omega
  rw [hone, hrest]
  refine ⟨fun hnone j hj => ?_, fun hnone j => ?_⟩
  · have hj' := hnone j
    rw [Function.update_of_ne hj] at hj'
    exact Bool.not_eq_true _ ▸ hj'
  · by_cases hj : j = i
    · rw [hj, Function.update_self]
      exact Bool.false_ne_true
    · rw [Function.update_of_ne hj, hnone j hj]
      exact Bool.false_ne_true

/-- **The mask of a thread** that has returned is the one it called with, except in 2.32 for a
thread whose reference was not the last one: `SIGCHLD` stays blocked. -/
theorem mask_restored_iff (hinit : (machine ι v stack).init s₀)
    (hrel : (machine ι v stack).AllSteps (Reliable v) s₀ as)
    (hrun : (machine ι v stack).exec s₀ as = some s) :
    (∀ i, s.pc i = .idle →
      (s.mask i = s.entry i ↔ v = .v2_27 ∨ s.last i = true ∨ SIGCHLD ∈ s.entry i)) ∧
      ∀ i omask status ans s', s.pc i = .subRef omask status →
        doSystem v stack s i ans = some s' →
        (s'.last i = true ↔ ∀ j, j ≠ i → (s.pc j).counted = false) := by
  have h : Inv v s := inv_of_reliable hinit hrel hrun
  refine ⟨fun i hpc => ?_, fun i omask status ans s' hpc hstep => h.last_iff hpc hstep⟩
  have hmask : s.mask i = if v = .v2_32 ∧ s.last i = false then s.entry i ∪ {SIGCHLD}
      else s.entry i := by
    have hk := h.knows i
    rw [hpc] at hk
    exact hk
  rw [hmask]
  split
  · rename_i hlost
    obtain ⟨rfl, hlast⟩ := hlost
    rw [Finset.union_eq_left, Finset.singleton_subset_iff, hlast]
    exact ⟨fun hmem => .inr (.inr hmem), fun hor => by simpa using hor⟩
  · rename_i hkept
    refine iff_of_true rfl ?_
    cases v
    · exact .inl rfl
    · refine .inr (.inl ?_)
      by_contra hlast
      exact hkept ⟨rfl, Bool.not_eq_true _ ▸ hlast⟩

/-- In 2.32 the thread that has left first has `SIGCHLD` blocked. -/
theorem mask_restored_iff_overlapping : ∃ s,
    (machine Bool .v2_32 ∅).exec catching overlapping = some s ∧
      s.pc true = .idle ∧ s.entry true = ∅ ∧ s.mask true ≠ s.entry true := by
  refine ⟨_, rfl, rfl, rfl, fun h => ?_⟩
  have hrun : (machine Bool .v2_32 ∅).exec catching overlapping = some _ := rfl
  have hor := ((mask_restored_iff ⟨_, _, _, _, rfl⟩ (reliable_of_succeeds (by decide)) hrun).1
    true rfl).mp h
  rcases hor with hv | hlast | hmem
  · cases hv
  · cases hlast
  · exact absurd hmem (Finset.notMem_empty _)

end Run

end EngineerLinux.LibcSystem
