import EngineerLinux.FrameIpc.Channel
import EngineerLinux.Lib.Handoff

/-!
# The frame channel hands frames over one at a time

The exclusion between producer and consumers is spread over two variables: the busy word keeps the
producer out (`frame_ipc.c` 88) from the copy of a header until a consumer has cleared it (126), and
the semaphore lets one consumer in for each published frame (97, 116). `Matches` says how the two,
the program points and the segment together stand for the place of a `Handoff`: empty, being filled,
published, or held by one consumer.

`step_matches` is the simulation: as long as no `semop` fails and no consumer process exits that
has taken a frame (`Smooth`), every step of the channel is a move of the one-place hand-over or
none at all. What the place is can be read off the program points, so most steps leave it as it is;
the others are the header, the last `semop`, a consumer's P and its clearing of the word.
`frames_handed_over` is its consequence for every run in which all `semop`s complete and no process
exits.
-/

namespace EngineerLinux.FrameIpc

open Kernel

variable {ι β : Type} {n : Nat}

/-! ## What the channel stands for -/

/-- The consumer is between its `semop` and the clearing of the busy word. -/
def GetPc.holding : GetPc n β → Prop
  | .attach | .read _ _ => True
  | .wait | .detach => False

/-- The producer has not found the busy word 0. -/
def SendPc.outside : SendPc n β → Prop
  | .idle | .map _ | .test _ => True
  | .header _ | .body _ _ => False

/-- Only pieces of this frame have been read. -/
def OnlyOf (got : Fin n → Option β) (frame : Fin n → β) : Prop :=
  ∀ i, got i = none ∨ got i = some (frame i)

/-- The shared state and the program points for each state of the place. -/
def PlaceOk (s : State ι n β) : Place ι (Fin n → β) → Prop
  | .empty => s.busy = 0 ∧ s.sem.value = 0 ∧ (∀ j, ¬ (s.get j).holding) ∧
      ∀ frame todo, s.send ≠ .body frame todo
  | .filling frame => s.busy = 1 ∧ s.sem.value = 0 ∧ (∀ j, ¬ (s.get j).holding) ∧
      ∃ todo, s.send = .body frame todo ∧ ∀ i ∉ todo, s.data i = frame i
  | .full frame => s.busy = 1 ∧ s.sem.value = 1 ∧ (∀ j, ¬ (s.get j).holding) ∧
      s.send.outside ∧ s.data = frame
  | .held j frame => s.busy = 1 ∧ s.sem.value = 0 ∧ (∀ j', (s.get j').holding ↔ j' = j) ∧
      s.send.outside ∧ s.data = frame ∧
      ∀ header got, s.get j = .read header got →
        (header = none ∨ header = some 1) ∧ OnlyOf got frame

/-- The number of readings in progress. -/
def openReadings : Place ι (Fin n → β) → Nat
  | .held _ _ => 1
  | _ => 0

/-- The channel `s` stands for the hand-over `h`: the same frames in and out, the place as
`PlaceOk` says, and the ended readings in step with the frames taken. -/
structure Matches (s : State ι n β) (h : Handoff ι (Fin n → β)) : Prop where
  inv : Handoff.Inv h
  sent : h.sent = s.accepted
  received : h.received = s.taken
  place : PlaceOk s h.place
  reads_length : s.reads.length + openReadings h.place = s.taken.length
  reads_ok : ∀ (k : Nat) r, s.reads[k]? = some r → ∃ frame, s.taken[k]? = some (r.consumer, frame) ∧
    (r.header = none ∨ r.header = some 1) ∧ OnlyOf r.got frame

/-- The adjustments the kernel keeps: minus the units given for the producer, the units taken for
a consumer process. -/
structure AdjOk (s : State ι n β) : Prop where
  producer : s.sem.adj .producer = -(s.accepted.length : Int)
  consumer : ∀ j, s.sem.adj (.consumer j) = s.mine j

theorem adjOk_fresh (data : Fin n → β) : AdjOk (State.fresh ι data) := ⟨rfl, fun _ => rfl⟩

theorem matches_fresh (data : Fin n → β) :
    Matches (State.fresh ι data) (⟨.empty, [], []⟩ : Handoff ι (Fin n → β)) where
  inv := Handoff.inv_init
  sent := rfl
  received := rfl
  place := ⟨rfl, rfl, fun _ hj => hj, nofun⟩
  reads_length := rfl
  reads_ok := nofun

/-! ## Where the place is, read off a program point -/

/-- A producer that copies a payload is filling the place with it. -/
theorem PlaceOk.of_body {s : State ι n β} {p : Place ι (Fin n → β)} (h : PlaceOk s p)
    {frame : Fin n → β} {todo : Finset (Fin n)} (hpc : s.send = .body frame todo) :
    p = .filling frame := by
  cases p with
  | empty => exact absurd hpc (h.2.2.2 frame todo)
  | filling frame' =>
    obtain ⟨-, -, -, todo', hbody, -⟩ := h
    rw [hpc] at hbody
    cases hbody
    rfl
  | full frame' =>
    have hout := h.2.2.2.1
    rw [hpc] at hout
    exact hout.elim
  | held j frame' =>
    have hout := h.2.2.2.1
    rw [hpc] at hout
    exact hout.elim

/-- A producer that has found the busy word 0 has the place to itself. -/
theorem PlaceOk.of_header {s : State ι n β} {p : Place ι (Fin n → β)} (h : PlaceOk s p)
    {frame : Fin n → β} (hpc : s.send = .header frame) : p = .empty := by
  cases p with
  | empty => rfl
  | filling frame' =>
    obtain ⟨-, -, -, todo', hbody, -⟩ := h
    rw [hpc] at hbody
    cases hbody
  | full frame' =>
    have hout := h.2.2.2.1
    rw [hpc] at hout
    exact hout.elim
  | held j frame' =>
    have hout := h.2.2.2.1
    rw [hpc] at hout
    exact hout.elim

/-- The busy word is 0 only while the place is empty. -/
theorem PlaceOk.of_busy {s : State ι n β} {p : Place ι (Fin n → β)} (h : PlaceOk s p)
    (hbusy : s.busy = 0) : p = .empty := by
  cases p with
  | empty => rfl
  | filling _ => exact absurd (hbusy.symm.trans h.1) (by decide)
  | full _ => exact absurd (hbusy.symm.trans h.1) (by decide)
  | held _ _ => exact absurd (hbusy.symm.trans h.1) (by decide)

/-- A unit of the semaphore stands for the frame in the segment. -/
theorem PlaceOk.of_value {s : State ι n β} {p : Place ι (Fin n → β)} (h : PlaceOk s p)
    (hval : s.sem.value ≠ 0) : p = .full s.data := by
  cases p with
  | empty => exact absurd h.2.1 hval
  | filling _ => exact absurd h.2.1 hval
  | full frame => rw [h.2.2.2.2]
  | held _ _ => exact absurd h.2.1 hval

/-- A consumer in its critical part holds the frame in the segment. -/
theorem PlaceOk.of_holding {s : State ι n β} {p : Place ι (Fin n → β)} (h : PlaceOk s p) {j : ι}
    (hj : (s.get j).holding) : p = .held j s.data := by
  cases p with
  | empty => exact absurd hj (h.2.2.1 j)
  | filling _ => exact absurd hj (h.2.2.1 j)
  | full _ => exact absurd hj (h.2.2.1 j)
  | held k frame =>
    obtain ⟨-, -, honly, -, hdata, -⟩ := h
    rw [(honly j).mp hj, hdata]

theorem PlaceOk.value_le {s : State ι n β} {p : Place ι (Fin n → β)} (h : PlaceOk s p) :
    s.sem.value ≤ 1 := by
  cases p with
  | empty => exact h.2.1.trans_le (by omega)
  | filling _ => exact h.2.1.trans_le (by omega)
  | full _ => exact h.2.1.le
  | held _ _ => exact h.2.1.trans_le (by omega)

/-! ## Steps that leave the place as it is -/

/-- The producer moves about outside its critical part. -/
theorem PlaceOk.of_send {s : State ι n β} {p : Place ι (Fin n → β)} (h : PlaceOk s p)
    (hout : s.send.outside) {mapped : Bool} {pc : SendPc n β} (hpc : pc.outside) :
    PlaceOk { s with mapped := mapped, send := pc } p := by
  cases p with
  | empty =>
    obtain ⟨hbusy, hval, hget, -⟩ := h
    refine ⟨hbusy, hval, hget, fun frame todo hbody => ?_⟩
    obtain rfl : pc = .body frame todo := hbody
    exact hpc
  | filling frame =>
    obtain ⟨-, -, -, todo, hbody, -⟩ := h
    rw [hbody] at hout
    exact hout.elim
  | full frame =>
    obtain ⟨hbusy, hval, hget, -, hdata⟩ := h
    exact ⟨hbusy, hval, hget, hpc, hdata⟩
  | held j frame =>
    obtain ⟨hbusy, hval, hget, -, hdata, hread⟩ := h
    exact ⟨hbusy, hval, hget, hpc, hdata, hread⟩

variable [DecidableEq ι]

/-- A consumer moves between points on the same side of its critical part; what it has read is
what the segment holds. -/
theorem PlaceOk.of_goto {s : State ι n β} {p : Place ι (Fin n → β)} (h : PlaceOk s p) {j : ι}
    {pc : GetPc n β} (hsame : pc.holding ↔ (s.get j).holding)
    (hread : ∀ header got, pc = .read header got → ∀ frame, p = .held j frame →
      (header = none ∨ header = some 1) ∧ OnlyOf got frame) :
    PlaceOk (s.goto j pc) p := by
  have hget : ∀ j', ((s.goto j pc).get j').holding ↔ (s.get j').holding := by
    intro j'
    show (Function.update s.get j pc j').holding ↔ _
    by_cases hj : j' = j
    · subst hj
      rwa [Function.update_self]
    · rw [Function.update_of_ne hj]
  cases p with
  | empty =>
    obtain ⟨hbusy, hval, hnone, hsend⟩ := h
    exact ⟨hbusy, hval, fun j' hj' => hnone j' ((hget j').mp hj'), hsend⟩
  | filling frame =>
    obtain ⟨hbusy, hval, hnone, hsend⟩ := h
    exact ⟨hbusy, hval, fun j' hj' => hnone j' ((hget j').mp hj'), hsend⟩
  | full frame =>
    obtain ⟨hbusy, hval, hnone, hsend⟩ := h
    exact ⟨hbusy, hval, fun j' hj' => hnone j' ((hget j').mp hj'), hsend⟩
  | held k frame =>
    obtain ⟨hbusy, hval, honly, hout, hdata, hold⟩ := h
    refine ⟨hbusy, hval, fun j' => (hget j').trans (honly j'), hout, hdata, ?_⟩
    intro header got hgot
    replace hgot : Function.update s.get j pc k = .read header got := hgot
    by_cases hk : k = j
    · subst hk
      rw [Function.update_self] at hgot
      exact hread header got hgot frame rfl
    · rw [Function.update_of_ne hk] at hgot
      exact hold header got hgot

/-! ## Adjustments -/

/-- Every step keeps the adjustments right, failing `semop`s and exits included. -/
theorem AdjOk.step {L : SemLimits} {s s' : State ι n β} {a : Act ι n β} (h : AdjOk s)
    (hs : step L s a = some s') : AdjOk s' := by
  obtain ⟨hprod, hcons⟩ := h
  cases step_inv hs with
  | publish frame sem hpc hv =>
    obtain ⟨-, hadj⟩ := semOp_v_done hv
    refine ⟨?_, fun j => ?_⟩
    · show sem.adj .producer = _
      rw [hadj, Function.update_self, hprod, List.length_append, List.length_singleton]
      omega
    · show sem.adj (.consumer j) = _
      rw [hadj, Function.update_of_ne (by nofun), hcons]
  | take j sem hpc hp =>
    obtain ⟨-, hadj⟩ := semOp_p_done hp
    refine ⟨?_, fun j' => ?_⟩
    · show sem.adj .producer = _
      rw [hadj, Function.update_of_ne (by nofun), hprod]
    · show sem.adj (.consumer j') = (Function.update s.mine j (s.mine j + 1) j' : Nat)
      by_cases hj : j' = j
      · subst hj
        rw [hadj, Function.update_self, Function.update_self, hcons]
        push_cast
        rfl
      · rw [hadj, Function.update_of_ne (fun e => hj (Proc.consumer.inj e)),
          Function.update_of_ne hj, hcons]
  | exit j hpc =>
    refine ⟨?_, fun j' => ?_⟩
    · show Function.update s.sem.adj (.consumer j) 0 .producer = _
      rw [Function.update_of_ne (by nofun), hprod]
    · show Function.update s.sem.adj (.consumer j) 0 (.consumer j') =
        (Function.update s.mine j 0 j' : Nat)
      by_cases hj : j' = j
      · subst hj
        rw [Function.update_self, Function.update_self]
        rfl
      · rw [Function.update_of_ne (fun e => hj (Proc.consumer.inj e)),
          Function.update_of_ne hj, hcons]
  | _ => exact ⟨hprod, hcons⟩

/-! ## The simulation -/

/-- The `semop` the step issues, if any, does not fail. -/
def Completes (L : SemLimits) (s : State ι n β) : Act ι n β → Prop
  | .send => ∀ frame, s.send = .body frame ∅ → semOp L 'v' s.sem .producer ≠ .erange
  | .get j => s.get j = .wait → semOp L 'p' s.sem (.consumer j) ≠ .erange
  | _ => True

omit [DecidableEq ι] in
/-- The process that exits, if any, has taken no frame. -/
def ExitsClean (s : State ι n β) : Act ι n β → Prop
  | .exit j => s.mine j = 0
  | _ => True

/-- The step does not disturb the hand-over. -/
def Smooth (L : SemLimits) (s : State ι n β) (a : Act ι n β) : Prop :=
  Completes L s a ∧ ExitsClean s a

/-- What the simulation owes for one step: moves of the hand-over that lead to a match. -/
def Followed (h : Handoff ι (Fin n → β)) (s' : State ι n β) : Prop :=
  ∃ ms h', (Handoff.machine ι (Fin n → β)).exec h ms = some h' ∧ Matches s' h'

omit [DecidableEq ι] in
/-- A step that neither publishes nor takes nor ends a reading, and leaves the place as it is, is
no move at all. -/
theorem Matches.stay {s s' : State ι n β} {h : Handoff ι (Fin n → β)} (hm : Matches s h)
    (haccepted : s'.accepted = s.accepted) (htaken : s'.taken = s.taken)
    (hreads : s'.reads = s.reads) (hplace : PlaceOk s' h.place) : Followed h s' := by
  refine ⟨[], h, rfl, hm.inv, hm.sent.trans haccepted.symm, hm.received.trans htaken.symm, hplace,
    ?_, ?_⟩
  · rw [hreads, htaken]
    exact hm.reads_length
  · rw [hreads, htaken]
    exact hm.reads_ok

omit [DecidableEq ι] in
/-- The copy of the header begins to fill the place. -/
theorem Matches.start {s : State ι n β} {h : Handoff ι (Fin n → β)} (hm : Matches s h)
    {frame : Fin n → β} (hpc : s.send = .header frame) :
    Followed h { s with busy := 1, send := .body frame Finset.univ } := by
  obtain ⟨hinv, hsent, hreceived, hplace, hlen, hok⟩ := hm
  -- a producer that is past its test of the busy word has the place to itself
  have hempty := hplace.of_header hpc
  have hmove : h.step (.start frame) = some { h with place := .filling frame } := by
    simp only [Handoff.step, hempty]
  refine ⟨[.start frame], _, Machine.exec_cons_of_next hmove, hinv.step hmove, hsent, hreceived,
    ?_, ?_, hok⟩
  · rw [hempty] at hplace
    obtain ⟨-, hval, hget, -⟩ := hplace
    exact ⟨rfl, hval, hget, Finset.univ, rfl, fun i hi => absurd (Finset.mem_univ i) hi⟩
  · rw [hempty] at hlen
    exact hlen

/-- A V that takes effect publishes the frame, which is complete by then. -/
theorem Matches.publish {L : SemLimits} {s : State ι n β} {h : Handoff ι (Fin n → β)}
    (hm : Matches s h) {frame : Fin n → β} {sem : Sem (Proc ι)} (hpc : s.send = .body frame ∅)
    (hv : semOp L 'v' s.sem .producer = .done sem) :
    Followed h { s with sem, send := .idle, accepted := s.accepted ++ [frame] } := by
  obtain ⟨hinv, hsent, hreceived, hplace, hlen, hok⟩ := hm
  have hfilling := hplace.of_body hpc
  have hmove : h.step .publish =
      some { h with place := .full frame, sent := h.sent ++ [frame] } := by
    simp only [Handoff.step, hfilling]
  refine ⟨[.publish], _, Machine.exec_cons_of_next hmove, hinv.step hmove, ?_, hreceived,
    ?_, ?_, hok⟩
  · show h.sent ++ [frame] = s.accepted ++ [frame]
    rw [hsent]
  · rw [hfilling] at hplace
    obtain ⟨hbusy, hval, hget, todo, hbody, hdata⟩ := hplace
    rw [hpc] at hbody
    cases hbody
    refine ⟨hbusy, ?_, hget, trivial, funext fun i => hdata i (Finset.notMem_empty i)⟩
    -- the V raises the value from 0
    show sem.value = 1
    rw [(semOp_v_done hv).1, hval]
  · rw [hfilling] at hlen
    exact hlen

/-- A P that takes effect takes the published frame: there is one, because there was a unit. -/
theorem Matches.take {L : SemLimits} {s : State ι n β} {h : Handoff ι (Fin n → β)}
    (hm : Matches s h) {j : ι} {sem : Sem (Proc ι)}
    (hp : semOp L 'p' s.sem (.consumer j) = .done sem) :
    Followed h { s with
      sem
      taken := s.taken ++ [(j, s.data)]
      mine := Function.update s.mine j (s.mine j + 1)
      get := Function.update s.get j .attach } := by
  obtain ⟨hinv, hsent, hreceived, hplace, hlen, hok⟩ := hm
  obtain ⟨hunit, -⟩ := semOp_p_done hp
  -- a unit of the semaphore is a frame that nobody has taken
  have hfull := hplace.of_value (by omega)
  have hmove : h.step (.take j) =
      some { h with place := .held j s.data, received := h.received ++ [(j, s.data)] } := by
    simp only [Handoff.step, hfull]
  refine ⟨[.take j], _, Machine.exec_cons_of_next hmove, hinv.step hmove, hsent, ?_, ?_, ?_, ?_⟩
  · show h.received ++ [(j, s.data)] = s.taken ++ [(j, s.data)]
    rw [hreceived]
  · rw [hfull] at hplace
    obtain ⟨hbusy, hval, hget, hout, -⟩ := hplace
    refine ⟨hbusy, ?_, fun j' => ?_, hout, rfl, fun header got hread => ?_⟩
    · show sem.value = 0
      omega
    -- nobody held the place before, so the taker is the only one that does
    · show (Function.update s.get j .attach j').holding ↔ j' = j
      by_cases hj : j' = j
      · subst hj
        rw [Function.update_self]
        exact ⟨fun _ => rfl, fun _ => trivial⟩
      · rw [Function.update_of_ne hj]
        exact ⟨fun hh => absurd hh (hget j'), fun e => absurd e hj⟩
    · replace hread : Function.update s.get j .attach j = .read header got := hread
      rw [Function.update_self] at hread
      cases hread
  · rw [hfull] at hlen
    show s.reads.length + 1 = (s.taken ++ [(j, s.data)]).length
    rw [List.length_append, ← hlen]
    rfl
  · intro k r hr
    obtain ⟨frame, hk, hread⟩ := hok k r hr
    refine ⟨frame, ?_, hread⟩
    show (s.taken ++ [(j, s.data)])[k]? = _
    rw [List.getElem?_append_left (List.getElem?_eq_some_iff.mp hk).1, hk]

/-- Clearing the busy word ends the reading and releases the place. -/
theorem Matches.release {s : State ι n β} {h : Handoff ι (Fin n → β)} (hm : Matches s h) {j : ι}
    {header : Option Int} {got : Fin n → Option β} (hpc : s.get j = .read header got) :
    Followed h { s.goto j .detach with busy := 0, reads := s.reads ++ [⟨j, header, got⟩] } := by
  obtain ⟨hinv, hsent, hreceived, hplace, hlen, hok⟩ := hm
  have hheld := hplace.of_holding (j := j) (by rw [hpc]; trivial)
  have hmove : h.step .release = some { h with place := .empty } := by
    simp only [Handoff.step, hheld]
  -- the holder was the last to take
  have hlast : s.taken.getLast? = some (j, s.data) := hreceived ▸ hinv.last j s.data hheld
  rw [hheld] at hplace hlen
  obtain ⟨-, hval, honly, hout, -, hread⟩ := hplace
  refine ⟨[.release], _, Machine.exec_cons_of_next hmove, hinv.step hmove, hsent, hreceived,
    ⟨rfl, hval, fun j' => ?_, fun frame todo hbody => ?_⟩, ?_, ?_⟩
  · show ¬ (Function.update s.get j .detach j').holding
    by_cases hj : j' = j
    · subst hj
      rw [Function.update_self]
      exact id
    · rw [Function.update_of_ne hj]
      exact fun hh => hj ((honly j').mp hh)
  · replace hbody : s.send = .body frame todo := hbody
    rw [hbody] at hout
    exact hout
  · show (s.reads ++ [_]).length + 0 = s.taken.length
    rw [List.length_append, ← hlen]
    rfl
  · intro k r hr
    replace hr : (s.reads ++ [⟨j, header, got⟩])[k]? = some r := hr
    rw [List.getElem?_append] at hr
    split at hr
    · exact hok k r hr
    -- the new reading has the number of the frame taken last
    · next hk =>
      obtain ⟨hk', hr'⟩ := List.getElem?_eq_some_iff.mp hr
      have hk0 : k - s.reads.length = 0 := by
        rw [List.length_singleton] at hk'
        omega
      have hkl : k = s.taken.length - 1 := by
        have : s.reads.length + 1 = s.taken.length := hlen
        omega
      have hr0 : (⟨j, header, got⟩ : Reading ι n β) = r := by
        rw [hk0] at hr
        exact Option.some.inj hr
      subst hr0
      refine ⟨s.data, ?_, hread header got hpc⟩
      show s.taken[k]? = some (j, s.data)
      rw [hkl, ← List.getLast?_eq_getElem?]
      exact hlast

/-- **The simulation**: a step that does not disturb the hand-over is one of its moves or none. -/
theorem Matches.step {L : SemLimits} {s s' : State ι n β} {a : Act ι n β}
    {h : Handoff ι (Fin n → β)} (hm : Matches s h) (hadj : AdjOk s) (hsmooth : Smooth L s a)
    (hs : step L s a = some s') : Followed h s' := by
  have hplace := hm.place
  cases step_inv hs with
  | call frame hpc => exact hm.stay rfl rfl rfl (hplace.of_send (by rw [hpc]; trivial) trivial)
  | map frame hpc => exact hm.stay rfl rfl rfl (hplace.of_send (by rw [hpc]; trivial) trivial)
  | notFree frame hpc hbusy =>
    exact hm.stay rfl rfl rfl (hplace.of_send (by rw [hpc]; trivial) trivial)
  | found frame hpc hbusy =>
    -- the busy word is 0, so the place is empty and stays so
    have hempty := hplace.of_busy hbusy
    refine hm.stay rfl rfl rfl ?_
    rw [hempty] at hplace ⊢
    obtain ⟨-, hval, hget, -⟩ := hplace
    exact ⟨hbusy, hval, hget, nofun⟩
  | header frame hpc => exact hm.start hpc
  | copy frame todo i hpc hi =>
    have hfilling := hplace.of_body hpc
    refine hm.stay rfl rfl rfl ?_
    rw [hfilling] at hplace ⊢
    obtain ⟨hbusy, hval, hget, todo', hbody, hdata⟩ := hplace
    rw [hpc] at hbody
    cases hbody
    refine ⟨hbusy, hval, hget, todo.erase i, rfl, fun k hk => ?_⟩
    -- the piece just copied, or one from before
    show Function.update s.data i (frame i) k = frame k
    by_cases hki : k = i
    · subst hki
      rw [Function.update_self]
    · rw [Function.update_of_ne hki]
      exact hdata k fun hmem => hk (Finset.mem_erase.mpr ⟨hki, hmem⟩)
  | publish frame sem hpc hv => exact hm.publish hpc hv
  | publishFails frame hpc hv => exact absurd hv (hsmooth.1 frame hpc)
  | take j sem hpc hp => exact hm.take hp
  | takeFails j hpc hp => exact absurd hp (hsmooth.1 hpc)
  | attach j hpc =>
    refine hm.stay rfl rfl rfl (hplace.of_goto (by rw [hpc]; exact Iff.rfl) ?_)
    intro header got hread frame hheld
    cases hread
    exact ⟨.inl rfl, fun i => .inl rfl⟩
  | readHeader j header got hpc =>
    refine hm.stay rfl rfl rfl (hplace.of_goto (by rw [hpc]; exact Iff.rfl) ?_)
    intro header' got' hread frame hheld
    cases hread
    rw [hheld] at hplace
    obtain ⟨hbusy, -, -, -, -, hold⟩ := hplace
    exact ⟨.inr (congrArg some hbusy), (hold header got hpc).2⟩
  | readData j i header got hpc =>
    refine hm.stay rfl rfl rfl (hplace.of_goto (by rw [hpc]; exact Iff.rfl) ?_)
    intro header' got' hread frame hheld
    cases hread
    rw [hheld] at hplace
    obtain ⟨-, -, -, -, hdata, hold⟩ := hplace
    refine ⟨(hold header got hpc).1, fun k => ?_⟩
    by_cases hki : k = i
    · subst hki
      exact .inr (by rw [Function.update_self, hdata])
    · rw [Function.update_of_ne hki]
      exact (hold header got hpc).2 k
  | clear j header got hpc => exact hm.release hpc
  | detach j hpc =>
    exact hm.stay rfl rfl rfl (hplace.of_goto (by rw [hpc]; exact Iff.rfl) nofun)
  | exit j hpc =>
    refine hm.stay rfl rfl rfl ?_
    have hzero : s.sem.adj (.consumer j) = 0 := by
      rw [hadj.consumer j, show s.mine j = 0 from hsmooth.2]
      rfl
    have hvalue : (s.sem.exit (.consumer j)).value = s.sem.value :=
      Sem.exit_value_of_zero hzero (hplace.value_le.trans (by omega))
    cases hp : h.place with
    | empty =>
      rw [hp] at hplace
      obtain ⟨hbusy, hval, hrest⟩ := hplace
      exact ⟨hbusy, hvalue.trans hval, hrest⟩
    | filling frame =>
      rw [hp] at hplace
      obtain ⟨hbusy, hval, hrest⟩ := hplace
      exact ⟨hbusy, hvalue.trans hval, hrest⟩
    | full frame =>
      rw [hp] at hplace
      obtain ⟨hbusy, hval, hrest⟩ := hplace
      exact ⟨hbusy, hvalue.trans hval, hrest⟩
    | held k frame =>
      rw [hp] at hplace
      obtain ⟨hbusy, hval, hrest⟩ := hplace
      exact ⟨hbusy, hvalue.trans hval, hrest⟩

/-! ## Runs -/

/-- A step counts a failed `semop` if and only if it issues one. -/
theorem failed_of_step {L : SemLimits} {s s' : State ι n β} {a : Act ι n β}
    (hs : step L s a = some s') :
    s'.failed = s.failed ∧ Completes L s a ∨ s'.failed = s.failed + 1 ∧ ¬ Completes L s a := by
  cases step_inv hs with
  | publish frame sem hpc hv =>
    refine .inl ⟨rfl, fun frame' hpc' => ?_⟩
    rw [hv]
    nofun
  | publishFails frame hpc hv => exact .inr ⟨rfl, fun hc => hc frame hpc hv⟩
  | take j sem hpc hp =>
    refine .inl ⟨rfl, fun hpc' => ?_⟩
    rw [hp]
    nofun
  | takeFails j hpc hp => exact .inr ⟨rfl, fun hc => hc hpc hp⟩
  | map frame hpc | found frame hpc _ | notFree frame hpc _ | header frame hpc =>
    refine .inl ⟨rfl, fun frame' hpc' => ?_⟩
    rw [hpc] at hpc'
    cases hpc'
  | attach j hpc | clear j _ _ hpc | detach j hpc =>
    refine .inl ⟨rfl, fun hpc' => ?_⟩
    rw [hpc] at hpc'
    cases hpc'
  | _ => exact .inl ⟨rfl, trivial⟩

/-- In a run that ends with no more failed `semop`s than it began with, every `semop` completed. -/
theorem allSteps_completes {L : SemLimits} {s t : State ι n β} {as : List (Act ι n β)}
    (he : (machine ι n β L).exec s as = some t) (hfailed : t.failed ≤ s.failed) :
    (machine ι n β L).AllSteps (Completes L) s as := by
  have hmono : ∀ {u : State ι n β} {bs : List (Act ι n β)},
      (machine ι n β L).exec u bs = some t → u.failed ≤ t.failed := by
    intro u bs
    induction bs generalizing u with
    | nil => exact fun hu => (Option.some.inj hu ▸ le_rfl)
    | cons b bs ih =>
      intro hu
      obtain ⟨v, hv, hrun⟩ := Machine.exec_cons_inv hu
      rcases failed_of_step hv with ⟨hf, -⟩ | ⟨hf, -⟩ <;> have := ih hrun <;> omega
  induction as generalizing s with
  | nil => trivial
  | cons a as ih =>
    obtain ⟨u, hu, hrun⟩ := Machine.exec_cons_inv he
    have hle := hmono hrun
    rcases failed_of_step hu with ⟨hf, hc⟩ | ⟨hf, -⟩
    · refine ⟨hc, fun v hv => ?_⟩
      obtain rfl : u = v := Option.some.inj (hu.symm.trans hv)
      exact ih hrun (by omega)
    · omega

/-- The channel is simulated by the one-place hand-over as long as its steps are smooth. -/
theorem simulates (L : SemLimits) :
    (machine ι n β L).Simulates (Smooth L) (Handoff.machine ι (Fin n → β))
      fun s h => AdjOk s ∧ Matches s h where
  step := by
    rintro s a s' h ⟨hadj, hm⟩ hsmooth hs
    obtain ⟨ms, h', hms, hm'⟩ := hm.step hadj hsmooth hs
    exact ⟨ms, h', hms, hadj.step hs, hm'⟩

/-- **Run lemma**: after a smooth run on a fresh channel the channel stands for a hand-over. -/
theorem matches_of_exec {L : SemLimits} {s t : State ι n β} {as : List (Act ι n β)}
    (hs : (machine ι n β L).init s) (hsmooth : (machine ι n β L).AllSteps (Smooth L) s as)
    (he : (machine ι n β L).exec s as = some t) :
    AdjOk t ∧ ∃ h : Handoff ι (Fin n → β), Matches t h := by
  obtain ⟨data, rfl⟩ := hs
  obtain ⟨-, h, -, hadj, hm⟩ :=
    (simulates L).exec ⟨adjOk_fresh data, matches_fresh data⟩ hsmooth he
  exact ⟨hadj, h, hm⟩

/-- Without exits, a run in which no `semop` fails is smooth. -/
theorem smooth_of_no_exit {L : SemLimits} {s t : State ι n β} {as : List (Act ι n β)}
    (he : (machine ι n β L).exec s as = some t) (hfailed : t.failed ≤ s.failed)
    (hexit : ∀ j, Act.exit j ∉ as) : (machine ι n β L).AllSteps (Smooth L) s as := by
  refine (allSteps_completes he hfailed).and
    ((Machine.allSteps_of_labels (L := fun a => ∀ j, a ≠ .exit j) ?_).mono ?_)
  · rintro a ha j rfl
    exact hexit j ha
  · intro u a ha
    cases a with
    | exit j => exact absurd rfl (ha j)
    | _ => trivial

/-! ## Exactly once and untorn -/

/-- What a consumer read (so far) is this frame: the header word is the 1 that the producer sent,
and the pieces are the frame's; if every piece was read it is the whole frame. -/
structure ReadOf (header : Option Int) (got : Fin n → Option β) (frame : Fin n → β) : Prop where
  header_ok : header = none ∨ header = some 1
  only : OnlyOf got frame
  whole : (∀ i, got i ≠ none) → got = fun i => some (frame i)

theorem ReadOf.of_only {header : Option Int} {got : Fin n → Option β} {frame : Fin n → β}
    (hheader : header = none ∨ header = some 1) (honly : OnlyOf got frame) :
    ReadOf header got frame :=
  ⟨hheader, honly, fun hall => funext fun i => (honly i).resolve_left (hall i)⟩

omit [DecidableEq ι] in
/-- Frames are handed over exactly once and untorn: they are taken in the order they were
accepted, all but at most the last; the `k`-th reading is by the consumer that took the `k`-th
frame, and of that frame alone, also while it goes on; and no two consumers are at it at once. -/
structure HandedOver (s : State ι n β) : Prop where
  order : s.taken.map Prod.snd <+: s.accepted
  no_omission : s.accepted.length ≤ s.taken.length + 1
  ended : ∀ (k : Nat) r, s.reads[k]? = some r → ∃ frame,
    s.taken[k]? = some (r.consumer, frame) ∧ s.accepted[k]? = some frame ∧
      ReadOf r.header r.got frame
  inProgress : ∀ j header got, s.get j = .read header got → ∃ frame,
    s.taken[s.reads.length]? = some (j, frame) ∧ s.accepted[s.reads.length]? = some frame ∧
      ReadOf header got frame
  one_reader : ∀ j j', (s.get j).holding → (s.get j').holding → j = j'

omit [DecidableEq ι] in
theorem Matches.accepted_get {s : State ι n β} {h : Handoff ι (Fin n → β)} (hm : Matches s h)
    {k : Nat} {j : ι} {frame : Fin n → β} (hk : s.taken[k]? = some (j, frame)) :
    s.accepted[k]? = some frame := by
  have horder := hm.inv.order
  rw [hm.received, hm.sent] at horder
  obtain ⟨rest, hrest⟩ := horder
  have hlt := (List.getElem?_eq_some_iff.mp hk).1
  rw [← hrest, List.getElem?_append_left (by rwa [List.length_map]), List.getElem?_map, hk]
  rfl

omit [DecidableEq ι] in
theorem Matches.handedOver {s : State ι n β} {h : Handoff ι (Fin n → β)} (hm : Matches s h) :
    HandedOver s where
  order := by
    have horder := hm.inv.order
    rwa [hm.received, hm.sent] at horder
  no_omission := by
    have hle := hm.inv.no_omission
    rwa [hm.received, hm.sent] at hle
  ended := by
    intro k r hr
    obtain ⟨frame, hk, hheader, honly⟩ := hm.reads_ok k r hr
    exact ⟨frame, hk, hm.accepted_get hk, .of_only hheader honly⟩
  inProgress := by
    intro j header got hread
    have hheld := hm.place.of_holding (j := j) (by rw [hread]; trivial)
    have hk : s.taken[s.reads.length]? = some (j, s.data) := by
      have hlen := hm.reads_length
      have hlast : s.taken.getLast? = some (j, s.data) := hm.received ▸ hm.inv.last j _ hheld
      rw [hheld] at hlen
      rw [List.getLast?_eq_getElem?, ← hlen] at hlast
      exact hlast
    have hplace := hm.place
    rw [hheld] at hplace
    obtain ⟨-, -, -, -, -, hold⟩ := hplace
    obtain ⟨hheader, honly⟩ := hold header got hread
    exact ⟨s.data, hk, hm.accepted_get hk, .of_only hheader honly⟩
  one_reader := by
    intro j j' hj hj'
    have h1 := hm.place.of_holding hj
    rw [hm.place.of_holding hj'] at h1
    exact (Place.held.inj h1).1.symm

/-- **Frames are handed over exactly once and untorn**, in every run of the producer and any
number of consumers on a fresh channel in which every `semop` completes and no process exits. -/
theorem frames_handed_over (L : SemLimits) (s t : State ι n β) (as : List (Act ι n β))
    (hs : (machine ι n β L).init s) (he : (machine ι n β L).exec s as = some t)
    (hfailed : t.failed = 0) (hexit : ∀ j, Act.exit j ∉ as) : HandedOver t := by
  have hsmooth : (machine ι n β L).AllSteps (Smooth L) s as := by
    refine smooth_of_no_exit he ?_ hexit
    omega
  obtain ⟨-, h, hm⟩ := matches_of_exec hs hsmooth he
  exact hm.handedOver

/-- One frame of two pieces for two consumers: the second takes it and reads it while the first
waits and the producer finds the channel busy. -/
def oneFrame : List (Act (Fin 2) 2 Char) :=
  [.call fun i => if i = 0 then 'h' else 'i', .send, .send, .send, .copy 1, .copy 0, .send,
    .get 1, .call fun _ => 'x', .send, .get 1, .readData 1 0, .send, .readHeader 1, .readData 1 1]

def afterOneFrame : State (Fin 2) 2 Char :=
  ((machine (Fin 2) 2 Char .linux).exec (State.fresh _ fun _ => ' ') oneFrame).get (by decide)

theorem frames_handed_over_oneFrame : HandedOver afterOneFrame :=
  frames_handed_over .linux (State.fresh _ fun _ => ' ') afterOneFrame oneFrame ⟨_, rfl⟩
    (Option.some_get _).symm (by decide) (by simp [oneFrame])

end EngineerLinux.FrameIpc
