import EngineerLinux.FrameIpc.Handover

/-!
# What `SEM_UNDO` does to the frame channel

The P and the V of a frame are in different processes, so the adjustment the kernel keeps for the
producer only falls and that of a consumer only rises. Nothing is wrong until one of them reaches
its limit (`semop` then fails with `ERANGE`, and `sem_op_`'s result is ignored, lines 97 and 116),
or until a consumer exits and the kernel gives back every unit it ever took.

Both results count. Along a run a process's adjustment is the number of its own `semop`s that have
completed, with a sign, so `completes_linux_iff` turns the kernel's check into a bound on the order
of the steps, and the hand-over of `Handover` holds up to the first step that breaks it.

- `completes_linux_iff`: on Linux a `semop` of the channel completes exactly when the caller's
  adjustment has room (`UndoRoom`);
- `runs_for_ever_iff`: a producer and one consumer that never exit stay in step exactly as long as
  the consumer does not issue its 32768th P;
- `restart_harmless_iff`: with exits, the channel stays in step exactly as long as, besides, every
  consumer process that exits has taken no frame.
-/

namespace EngineerLinux.FrameIpc

open Kernel

variable {ι β : Type} {n : Nat}

/-- Every `semop` took effect, and the value of the semaphore is the number of frames published
and not yet taken. -/
structure InStep (s : State ι n β) : Prop where
  failed : s.failed = 0
  value : s.sem.value + s.taken.length = s.accepted.length

variable [DecidableEq ι]

/-- There is room in the caller's adjustment for the `semop` the step issues. -/
def UndoRoom (s : State ι n β) : Act ι n β → Prop
  | .send => ∀ frame, s.send = .body frame ∅ → s.accepted.length < 32768
  | .get j => s.get j = .wait → s.mine j < 32767
  | _ => True

/-! ## Single `semop`s -/

/-- The producer's V on Linux. -/
theorem semOp_v_linux {s : State ι n β} (hadj : AdjOk s) (hval : s.sem.value ≤ 1) :
    semOp .linux 'v' s.sem .producer ≠ .erange ↔ s.accepted.length < 32768 := by
  rw [semOp_v, semop_ne_erange_iff (by omega), hadj.producer]
  simp only [SemLimits.linux, decide_eq_true_eq]
  omega

/-- A consumer's P on Linux, when it does not block. -/
theorem semOp_p_linux {s : State ι n β} {j : ι} (hadj : AdjOk s) (hval : s.sem.value ≤ 1)
    (hblocks : semOp .linux 'p' s.sem (.consumer j) ≠ .blocks) :
    semOp .linux 'p' s.sem (.consumer j) ≠ .erange ↔ s.mine j < 32767 := by
  rw [semOp_p] at hblocks ⊢
  rw [Ne, semop_eq_blocks_iff, Int.not_lt] at hblocks
  -- `SEM_UNDO` adds the unit taken to the adjustment, which is the number of frames taken so far
  rw [semop_ne_erange_iff hblocks, hadj.consumer]
  simp only [SemLimits.linux, decide_eq_true_eq]
  omega

/-- On Linux the `semop` of a step completes exactly when the caller's adjustment has room. -/
theorem completes_linux_iff {s s' : State ι n β} {a : Act ι n β} (hadj : AdjOk s)
    (hval : s.sem.value ≤ 1) (hs : step .linux s a = some s') :
    Completes .linux s a ↔ UndoRoom s a := by
  cases a with
  | send =>
    exact forall_congr' fun frame => imp_congr_right fun _ => semOp_v_linux hadj hval
  | get j =>
    refine imp_congr_right fun hpc => semOp_p_linux hadj hval fun hblocks => ?_
    simp only [step, getFrame, hpc, hblocks, reduceCtorEq] at hs
  | _ => exact Iff.rfl

omit [DecidableEq ι] in
theorem Matches.inStep {s : State ι n β} {h : Handoff ι (Fin n → β)} (hm : Matches s h)
    (hfailed : s.failed = 0) : InStep s := by
  refine ⟨hfailed, ?_⟩
  have hlen := hm.inv.length_sent
  rw [hm.sent, hm.received] at hlen
  have hplace := hm.place
  unfold Handoff.outstanding at hlen
  cases hp : h.place with
  -- the value is 1 while a frame is published, and no frame is on its way otherwise
  | full frame =>
    rw [hp] at hlen hplace
    rw [hplace.2.1, hlen, List.length_singleton, Nat.add_comm]
  | _ =>
    rw [hp] at hlen hplace
    rw [hplace.2.1, hlen, List.length_nil, Nat.zero_add, Nat.add_zero]

/-! ## Runs on Linux -/

/-- What holds along a run that stays in step. -/
structure Steady (s : State ι n β) : Prop where
  adjOk : AdjOk s
  matched : ∃ h : Handoff ι (Fin n → β), Matches s h
  failed : s.failed = 0

omit [DecidableEq ι] in
theorem Steady.inStep {s : State ι n β} (hs : Steady s) : InStep s := by
  obtain ⟨h, hm⟩ := hs.matched
  exact hm.inStep hs.failed

omit [DecidableEq ι] in
theorem Steady.value_le {s : State ι n β} (hs : Steady s) : s.sem.value ≤ 1 := by
  obtain ⟨h, hm⟩ := hs.matched
  exact hm.place.value_le

omit [DecidableEq ι] in
theorem steady_fresh (data : Fin n → β) : Steady (State.fresh ι data) :=
  ⟨adjOk_fresh data, ⟨_, matches_fresh data⟩, rfl⟩

/-- A step with room for its `semop`, and no exit but of a process that took nothing, keeps the
channel steady. -/
theorem Steady.step {s s' : State ι n β} {a : Act ι n β} (h : Steady s) (hroom : UndoRoom s a)
    (hclean : ExitsClean s a) (hs : step .linux s a = some s') : Steady s' := by
  obtain ⟨hand, hm⟩ := h.matched
  have hcompletes := (completes_linux_iff h.adjOk h.value_le hs).mpr hroom
  obtain ⟨ms, h', -, hm'⟩ := hm.step h.adjOk ⟨hcompletes, hclean⟩ hs
  refine ⟨h.adjOk.step hs, ⟨h', hm'⟩, ?_⟩
  rcases failed_of_step hs with ⟨hf, -⟩ | ⟨-, hn⟩
  · exact hf.trans h.failed
  · exact absurd hcompletes hn

/-- A step without room for its `semop` makes it fail, and one at which a process exits that has
taken frames gives their units back: either way the channel is out of step. -/
theorem Steady.out_of_step {s s' : State ι n β} {a : Act ι n β} (h : Steady s)
    (hbad : ¬ (UndoRoom s a ∧ ExitsClean s a)) (hs : FrameIpc.step .linux s a = some s') :
    ¬ InStep s' := by
  intro hin
  have hvalue := h.value_le
  -- either a `semop` fails, or units come back that nobody put there
  rcases not_and_or.mp hbad with hroom | hclean
  · rcases failed_of_step hs with ⟨-, hc⟩ | ⟨hf, -⟩
    · exact hroom ((completes_linux_iff h.adjOk hvalue hs).mp hc)
    · rw [hin.failed] at hf
      cases hf
  · cases step_inv hs with
    | exit j hpc =>
      have hpos : 0 < s.sem.adj (.consumer j) := by
        rw [h.adjOk.consumer j]
        exact Int.natCast_pos.mpr (Nat.pos_of_ne_zero hclean)
      have hlt : s.sem.value < (s.sem.exit (.consumer j)).value :=
        Sem.exit_value_lt hpos (by omega)
      have hbefore := h.inStep.value
      have hafter : (s.sem.exit (.consumer j)).value + s.taken.length = s.accepted.length :=
        hin.value
      omega
    | _ => exact hclean trivial

/-- **Run lemma**: the channel is in step all along a run on Linux if and only if every `semop`
has room and no process exits that has taken a frame. -/
theorem allStates_inStep_iff (data : Fin n → β) {as : List (Act ι n β)} {t : State ι n β}
    (he : (machine ι n β .linux).exec (State.fresh ι data) as = some t) :
    (machine ι n β .linux).AllStates InStep (State.fresh ι data) as ↔
      (machine ι n β .linux).AllSteps (fun s a => UndoRoom s a ∧ ExitsClean s a)
        (State.fresh ι data) as := by
  constructor
  · intro hall
    exact Machine.allSteps_of_allStates (fun u a v hu _ hG hv => hu.step hG.1 hG.2 hv)
      (fun u a v hu _ _ hG hv => hu.out_of_step hG hv) (steady_fresh data) Machine.allSteps_true
      hall he
  · intro hG
    exact (Machine.allStates_of_inductive
      (fun u a v (hu : Steady u) hG hv => hu.step hG.1 hG.2 hv) (steady_fresh data) hG).mono
        fun u hu => hu.inStep

/-! ## One consumer that never exits -/

/-- At each P, the consumer has taken fewer than 32767 frames. -/
def BeforeLastP (s : State Unit n β) : Act Unit n β → Prop
  | .get _ => s.get () = .wait → s.mine () < 32767
  | _ => True

/-- With one consumer that never exits, all frames taken are its own, and the producer is at most
one V ahead: it has room as long as the consumer has. -/
theorem Steady.undoRoom {s : State Unit n β} {a : Act Unit n β} (h : Steady s)
    (hmine : s.mine () = s.taken.length ∧ s.mine () ≤ 32767) (hlast : BeforeLastP s a) :
    UndoRoom s a := by
  cases a with
  | send =>
    intro frame hpc
    obtain ⟨hand, hm⟩ := h.matched
    -- all frames accepted before this one have been taken, since the value is still 0
    have hvalue := h.inStep.value
    have hplace := hm.place
    rw [hplace.of_body hpc] at hplace
    rw [hplace.2.1] at hvalue
    omega
  | get j => exact hlast
  | _ => trivial

/-- The count of the only consumer process follows the frames taken. -/
theorem mine_step {L : SemLimits} {s s' : State Unit n β} {a : Act Unit n β}
    (hmine : s.mine () = s.taken.length ∧ s.mine () ≤ 32767) (hlast : BeforeLastP s a)
    (hexit : a ≠ .exit ()) (hs : FrameIpc.step L s a = some s') :
    s'.mine () = s'.taken.length ∧ s'.mine () ≤ 32767 := by
  cases step_inv hs with
  | take j sem hpc hp =>
    have hroom : s.mine () < 32767 := hlast hpc
    show Function.update s.mine () (s.mine () + 1) () = (s.taken ++ [_]).length ∧
      Function.update s.mine () (s.mine () + 1) () ≤ 32767
    rw [Function.update_self, List.length_append, List.length_singleton]
    omega
  | exit j hpc => exact absurd rfl hexit
  | _ => exact hmine

/-- **The channel runs on as long as the undo adjustment lasts.** On Linux, a producer and one
consumer process that never exit, on a fresh channel: every `semop` takes effect and the value is
always the number of frames published and not yet taken, 0 or 1, if and only if the consumer has
taken fewer than 32767 frames at each P it issues. -/
theorem runs_for_ever_iff (s t : State Unit n β) (as : List (Act Unit n β))
    (hs : (machine Unit n β .linux).init s) (he : (machine Unit n β .linux).exec s as = some t)
    (hexit : Act.exit () ∉ as) :
    (machine Unit n β .linux).AllStates (fun u => InStep u ∧ u.sem.value ≤ 1) s as ↔
      (machine Unit n β .linux).AllSteps BeforeLastP s as := by
  obtain ⟨data, rfl⟩ := hs
  constructor
  · intro hall
    refine ((allStates_inStep_iff data he).mp (hall.mono fun u hu => hu.1)).mono ?_
    intro u a hG
    cases a with
    | get j => exact hG.1
    | _ => trivial
  · intro hG
    have hlabels : (machine Unit n β .linux).AllSteps (fun _ a => a ≠ .exit ())
        (State.fresh Unit data) as :=
      Machine.allSteps_of_labels fun a ha e => hexit (e ▸ ha)
    refine (Machine.allStates_of_inductive (P := fun u => Steady u ∧
      u.mine () = u.taken.length ∧ u.mine () ≤ 32767) ?_ ⟨steady_fresh data, rfl, Nat.zero_le _⟩
      (hG.and hlabels)).mono fun u hu => ⟨hu.1.inStep, hu.1.value_le⟩
    rintro u a v ⟨hu, hmine⟩ ⟨hlast, hne⟩ hv
    refine ⟨hu.step (hu.undoRoom hmine hlast) ?_ hv, mine_step hmine hlast hne hv⟩
    cases a with
    | exit j => exact absurd rfl hne
    | _ => trivial

/-- The producer sends a frame of one piece. -/
def sendOne (frame : Fin 1 → β) : List (Act Unit 1 β) :=
  [.call frame, .send, .send, .send, .copy 0, .send]

/-- The consumer takes it, reads it and lets it go. -/
def getOne : List (Act Unit 1 β) := [.get (), .get (), .readData () 0, .get (), .get ()]

/-- `k` frames one after the other. -/
def rounds (frame : Fin 1 → β) : Nat → List (Act Unit 1 β)
  | 0 => []
  | k + 1 => rounds frame k ++ (sendOne frame ++ getOne)

/-- Two rounds, 1 and 2 units in the adjustments. -/
theorem runs_for_ever_iff_rounds :
    (machine Unit 1 Bool .linux).AllStates (fun u => InStep u ∧ u.sem.value ≤ 1)
      (State.fresh Unit fun _ => false) (rounds (fun _ => true) 2) := by
  have hfew : (machine Unit 1 Bool .linux).AllSteps (fun u _ => u.mine () < 32767)
      (State.fresh Unit fun _ => false) (rounds (fun _ => true) 2) := by decide
  refine (runs_for_ever_iff _ (((machine Unit 1 Bool .linux).exec (State.fresh Unit fun _ => false)
    (rounds (fun _ => true) 2)).get (by decide)) _ ⟨_, rfl⟩ (Option.some_get _).symm
    (by simp [rounds, sendOne, getOne])).mpr (hfew.mono ?_)
  intro u a hu
  cases a with
  | get j => exact fun _ => hu
  | _ => trivial

/-- Between two frames, after `k` of them: the producer's adjustment is `-k`, the consumer's
`k`. -/
structure Resting (k : Nat) (s : State Unit n β) : Prop where
  send : s.send = .idle
  get : s.get () = .wait
  busy : s.busy = 0
  value : s.sem.value = 0
  adj_producer : s.sem.adj .producer = -(k : Int)
  adj_consumer : s.sem.adj (.consumer ()) = k

/-- The producer's half of a round. -/
theorem exec_sendOne {L : SemLimits} {s : State Unit 1 β} {sem : Sem (Proc Unit)}
    (frame : Fin 1 → β) (hsend : s.send = .idle) (hbusy : s.busy = 0)
    (hv : semop L s.sem .producer 1 = .done sem) :
    (machine Unit 1 β L).exec s (sendOne frame) = some { s with
      busy := 1
      data := Function.update s.data 0 (frame 0)
      mapped := true
      sem
      accepted := s.accepted ++ [frame] } := by
  simp [sendOne, Machine.exec, machine, FrameIpc.step, sendSharedFrame, hsend, hbusy, semOp_v, hv]

/-- The consumer's half of a round. -/
theorem exec_getOne {L : SemLimits} {s : State Unit 1 β} {sem : Sem (Proc Unit)}
    (hget : s.get () = .wait) (hp : semop L s.sem (.consumer ()) (-1) = .done sem) :
    (machine Unit 1 β L).exec s getOne = some { s with
      busy := 0
      sem
      get := Function.update s.get () .wait
      taken := s.taken ++ [((), s.data)]
      reads := s.reads ++ [⟨(), none, Function.update (fun _ => none) 0 (some (s.data 0))⟩]
      mine := Function.update s.mine () (s.mine () + 1) } := by
  simp [getOne, Machine.exec, machine, FrameIpc.step, getFrame, hget, semOp_p, hp, State.goto]

/-- The V of a round, as long as the producer's adjustment has room. -/
theorem semop_v_round {s : Sem (Proc Unit)} {k : Nat} (hvalue : s.value = 0)
    (hadj : s.adj .producer = -(k : Int)) (hk : k < 32768) :
    semop .linux s .producer 1 = .done ⟨1, Function.update s.adj .producer (-(k : Int) - 1)⟩ := by
  rw [semop_of_ok (by omega), hadj, hvalue]
  · rfl
  · simp only [hvalue, SemLimits.linux, decide_eq_true_eq]
    omega
  · simp only [hadj, SemLimits.linux, decide_eq_true_eq]
    omega

/-- The P of a round: it fails when the consumer's adjustment has reached its limit. -/
theorem semop_p_round {s : Sem (Proc Unit)} {k : Nat} (hvalue : s.value = 1)
    (hadj : s.adj (.consumer ()) = k) :
    semop .linux s (.consumer ()) (-1) =
      if k < 32767 then .done ⟨0, Function.update s.adj (.consumer ()) (k + 1)⟩ else .erange := by
  unfold semop
  rw [if_neg (by omega), hvalue, hadj]
  refine if_congr ?_ ?_ rfl
  · simp only [SemLimits.linux, decide_eq_true_eq]
    omega
  · rw [Int.sub_neg]
    rfl

/-- One round, as long as the adjustments have room. -/
theorem Resting.round {s : State Unit 1 β} {k : Nat} (h : Resting k s) (hk : k < 32767)
    (frame : Fin 1 → β) : ∃ t, (machine Unit 1 β .linux).exec s (sendOne frame ++ getOne) = some t ∧
      Resting (k + 1) t := by
  have hsent := exec_sendOne frame h.send h.busy
    (semop_v_round h.value h.adj_producer (by omega))
  -- the producer's V changes the producer's adjustment only
  have hcons : Function.update s.sem.adj .producer (-(k : Int) - 1) (.consumer ()) = k := by
    rw [Function.update_of_ne (by nofun), h.adj_consumer]
  have hp := semop_p_round (s := ⟨1, Function.update s.sem.adj .producer (-(k : Int) - 1)⟩)
    rfl hcons
  rw [if_pos hk] at hp
  have hprod : Function.update (Function.update s.sem.adj .producer (-(k : Int) - 1))
      (.consumer ()) (k + 1) .producer = -((k + 1 : Nat) : Int) := by
    rw [Function.update_of_ne (by nofun), Function.update_self]
    omega
  have hcons' : Function.update (Function.update s.sem.adj .producer (-(k : Int) - 1))
      (.consumer ()) (k + 1) (.consumer ()) = ((k + 1 : Nat) : Int) := by
    rw [Function.update_self]
    omega
  have hget : Function.update s.get () .wait () = .wait := Function.update_self ..
  exact ⟨_, (Machine.exec_append_of_exec hsent).trans (exec_getOne h.get hp), h.send, hget, rfl,
    rfl, hprod, hcons'⟩

/-- As many rounds as the adjustments have room for. -/
theorem exec_rounds (data frame : Fin 1 → β) : ∀ k ≤ 32767, ∃ t,
    (machine Unit 1 β .linux).exec (State.fresh Unit data) (rounds frame k) = some t ∧ Resting k t
  | 0, _ => ⟨_, rfl, rfl, rfl, rfl, rfl, rfl, rfl⟩
  | k + 1, hk => by
    obtain ⟨t, ht, hrest⟩ := exec_rounds data frame k (by omega)
    obtain ⟨u, hu, hrest'⟩ := hrest.round (by omega) frame
    exact ⟨u, (Machine.exec_append_of_exec ht).trans hu, hrest'⟩

/-- A P that fails is counted, and the consumer goes on as if it had taken a frame. -/
theorem exec_get_fails {L : SemLimits} {s : State Unit n β} (hget : s.get () = .wait)
    (hp : semop L s.sem (.consumer ()) (-1) = .erange) :
    (machine Unit n β L).exec s [.get ()] =
      some { s.goto () .attach with failed := s.failed + 1 } := by
  simp [Machine.exec, machine, FrameIpc.step, getFrame, hget, semOp_p, hp]

theorem exit_notMem_rounds (frame : Fin 1 → β) (k : Nat) : Act.exit () ∉ rounds frame k := by
  induction k with
  | zero => simp [rounds]
  | succ k ih => simp [rounds, sendOne, getOne, ih]

/-- 32767 frames, one more from the producer, and the consumer's next P. -/
def lastP : List (Act Unit 1 Bool) :=
  rounds (fun _ => true) 32767 ++ (sendOne (fun _ => true) ++ [.get ()])

/-- **The 32768th P fails**: it returns `ERANGE` although there is a unit, and the channel is out
of step. -/
theorem last_p_fails :
    ∃ t, (machine Unit 1 Bool .linux).exec (State.fresh Unit fun _ => false) lastP = some t ∧
      Act.exit () ∉ lastP ∧
      ¬ (machine Unit 1 Bool .linux).AllStates (fun u => InStep u ∧ u.sem.value ≤ 1)
        (State.fresh Unit fun _ => false) lastP := by
  unfold lastP
  obtain ⟨s, hs, hrest⟩ := exec_rounds (fun _ => false) (fun _ => true) 32767 le_rfl
  have hrounds := exit_notMem_rounds (fun _ : Fin 1 => true) 32767
  -- from here on the rounds are just a schedule that leads to a state at rest
  generalize rounds (fun _ : Fin 1 => true) 32767 = as at hs hrounds
  have hsent := exec_sendOne (fun _ => true) hrest.send hrest.busy
    (semop_v_round hrest.value hrest.adj_producer (by omega))
  have hcons : Function.update s.sem.adj .producer (-((32767 : Nat) : Int) - 1) (.consumer ()) =
      (32767 : Nat) := by
    rw [Function.update_of_ne (by nofun), hrest.adj_consumer]
  have hp := semop_p_round
    (s := ⟨1, Function.update s.sem.adj .producer (-((32767 : Nat) : Int) - 1)⟩) rfl hcons
  rw [if_neg (by omega)] at hp
  have hlast := (Machine.exec_append_of_exec hs).trans
    ((Machine.exec_append_of_exec hsent).trans (exec_get_fails hrest.get hp))
  refine ⟨_, hlast, ?_, fun hall => ?_⟩
  · simp [hrounds, sendOne]
  · cases (hall.last hlast).1.failed

/-! ## Restarts -/

/-- **A restart is harmless as long as the process that exits has taken nothing.** On Linux, in a
run of the producer and of consumers whose processes may exit between two frames and be replaced:
every `semop` takes effect and the value is always the number of frames published and not yet
taken if and only if every process that exits has taken no frame, and each `semop` still has room
in its caller's adjustment. -/
theorem restart_harmless_iff (s t : State ι n β) (as : List (Act ι n β))
    (hs : (machine ι n β .linux).init s) (he : (machine ι n β .linux).exec s as = some t) :
    (machine ι n β .linux).AllStates InStep s as ↔
      (machine ι n β .linux).AllSteps (fun u a => UndoRoom u a ∧ ExitsClean u a) s as := by
  obtain ⟨data, rfl⟩ := hs
  exact allStates_inStep_iff data he

/-- One consumer process exits before it has taken anything, another takes a frame. -/
theorem restart_harmless_iff_idle :
    (machine Unit 1 Bool .linux).AllStates InStep (State.fresh Unit fun _ => false)
      (.exit () :: rounds (fun _ => true) 1) := by
  have hroom : (machine Unit 1 Bool .linux).AllSteps
      (fun u _ => u.accepted.length < 32768 ∧ u.mine () < 32767)
      (State.fresh Unit fun _ => false) (.exit () :: rounds (fun _ => true) 1) := by decide
  have hclean : (machine Unit 1 Bool .linux).AllSteps ExitsClean
      (State.fresh Unit fun _ => false) (.exit () :: rounds (fun _ => true) 1) := by
    refine ⟨rfl, fun t _ => ?_⟩
    have hno : ∀ a ∈ rounds (fun _ : Fin 1 => true) 1, a ≠ .exit () := by
      simp [rounds, sendOne, getOne]
    refine (Machine.allSteps_of_labels hno).mono fun u a ha => ?_
    cases a with
    | exit j => exact absurd rfl ha
    | _ => trivial
  refine (restart_harmless_iff _ (((machine Unit 1 Bool .linux).exec
    (State.fresh Unit fun _ => false) (.exit () :: rounds (fun _ => true) 1)).get (by decide)) _
    ⟨_, rfl⟩ (Option.some_get _).symm).mpr ((hroom.and hclean).mono ?_)
  rintro u a ⟨⟨hsent, hmine⟩, hexit⟩
  refine ⟨?_, hexit⟩
  cases a with
  | send => exact fun _ _ => hsent
  | get j => exact fun _ => hmine
  | _ => trivial

/-- **A restart after one frame**: when the consumer exits, its adjustment of 1 makes the value 1,
although nothing is published, and the new consumer takes the same frame again. -/
theorem restart_takes_twice :
    ∃ t u, (machine Unit 1 Bool .linux).exec (State.fresh Unit fun _ => false)
        (rounds (fun _ => true) 1 ++ [.exit ()]) = some t ∧ ¬ InStep t ∧
      (machine Unit 1 Bool .linux).exec t [.get ()] = some u ∧
      u.taken.length = 2 ∧ u.accepted.length = 1 := by
  refine ⟨((machine Unit 1 Bool .linux).exec (State.fresh Unit fun _ => false)
    (rounds (fun _ => true) 1 ++ [.exit ()])).get (by decide), ((machine Unit 1 Bool .linux).exec
    (State.fresh Unit fun _ => false) (rounds (fun _ => true) 1 ++ [.exit (), .get ()])).get
    (by decide), (Option.some_get _).symm, fun hin => ?_, ?_, by decide, by decide⟩
  · exact absurd hin.value (by decide)
  · rw [Option.some_get, ← Machine.exec_append_of_exec (Option.some_get _).symm]
    rfl

end EngineerLinux.FrameIpc
