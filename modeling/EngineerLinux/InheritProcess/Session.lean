import EngineerLinux.InheritProcess.Model
import EngineerLinux.Lib.Prog
import Mathlib.Data.List.Infix

/-!
# One session of the server (`msg_process`)

`msg_process` (`server.c` 9-38) as a program over the calls it makes, with the array `buf` and the
memory behind it. A result `none` stands for not having returned yet: the two loops are given so
many turns.

A session is what `recv` answers: the pieces in which TCP delivers what the client sends, 1 to 1024
bytes each, and after the last of them 0 at every further call if the client closes, or -1 if it
resets. A piece begins at the front of `buf` again, so what `strstr` finds (line 30) depends on this
piece alone, however long the earlier ones were; the proofs follow the loop from piece to piece
(`run_recv_piece`).

- `hasQuit_recvd`: what `strstr` finds in `buf` after a piece is what `remote_process` of the
  machine looks at;
- `session_end_iff`: **the session ends when "quit" has been received**, and not before, and all
  that is written is inside `buf`, exactly for cuts of the stream that keep the word whole;
- `session_returns_iff`: **a finite session ends** exactly if the client resets or one of the pieces
  has the word;
- `remoteProcess_recv`: the loop here and the machine of all the threads go on alike.
-/

namespace EngineerLinux.InheritProcess

/-! ## The program -/

inductive MsgCall where
  | accept (sockfd : Int)
  /-- `recv(fd, buf, size, 0)`. -/
  | recv (fd : Int) (size : Nat)
  | close (fd : Int)

/-- The return value; of `recv` the bytes it stores, or `none` for -1. -/
abbrev MsgCall.Ans : MsgCall → Type
  | .recv _ _ => Option (List UInt8)
  | _ => Int

abbrev MsgSys : Sys := ⟨MsgCall, MsgCall.Ans⟩

/-- `buf`, and what is in memory from its first byte on; whether something has been written behind
its 1024 bytes. -/
structure Buf where
  mem : List UInt8
  outside : Bool

/-- `char buf[1024] = {0}`, and the memory behind it. -/
def Buf.zero (behind : List UInt8) : Buf := ⟨List.replicate 1024 0 ++ behind, false⟩

/-- `recv` has stored these bytes. -/
def Buf.store (buf : Buf) (data : List UInt8) : Buf :=
  { buf with mem := data ++ buf.mem.drop data.length }

/-- `buf[i] = '\0'`. -/
def Buf.terminate (buf : Buf) (i : Nat) : Buf :=
  ⟨buf.mem.set i 0, buf.outside || decide (1024 ≤ i)⟩

/-- `do connect_fd = accept(..); while (connect_fd == -1);` -/
def acceptLoop (sockfd : Int) : (fuel : Nat) → Prog MsgSys (Option Int)
  | 0 => .ret none
  | fuel + 1 =>
    .call (.accept sockfd) fun (connect_fd : Int) =>
    if connect_fd = -1 then acceptLoop sockfd fuel else .ret (some connect_fd)

/-- The loop over `recv`: whether it has been left by the `break` or by the `return`. -/
def recvLoop (connect_fd : Int) : (fuel : Nat) → Buf → Prog MsgSys (Option Bool × Buf)
  | 0, buf => .ret (none, buf)
  | fuel + 1, buf =>
    .call (.recv connect_fd 1024) fun (data : Option (List UInt8)) =>
    match data with
    | none => .ret (some false, buf)
    | some data =>
      if data.length ≠ 0 then
        let buf := (buf.store data).terminate data.length
        if hasQuit buf.mem then .ret (some true, buf) else recvLoop connect_fd fuel buf
      else recvLoop connect_fd fuel buf

/-- `msg_process`. -/
def msgProcess (behind : List UInt8) (sockfd : Int) (fuel : Nat) : Prog MsgSys (Option Unit) :=
  (acceptLoop sockfd fuel).bind fun connect_fd =>
  match connect_fd with
  | none => .ret none
  | some connect_fd =>
    (recvLoop connect_fd fuel (.zero behind)).bind fun r =>
    match r.1 with
    | none => .ret none
    | some false => .ret (some ())
    | some true =>
      .call (.close connect_fd) fun (_ : Int) =>
      .call (.close sockfd) fun (_ : Int) => .ret (some ())

/-! ## The connection -/

/-- A piece of the stream that one `recv` delivers. -/
structure Piece where
  data : List UInt8
  pos : 0 < data.length
  le : data.length ≤ 1024

/-- How the client ends the session. -/
inductive Ending where
  | closes
  | resets
  deriving DecidableEq

/-- What `accept` and `recv` will answer: so many failures first, then the descriptor; the pieces
that have not been received, and the end. -/
structure Connection where
  refused : Nat
  fd : Nat
  pieces : List Piece
  ending : Ending

/-- What a call answers. -/
def Connection.sys : (c : MsgCall) → Connection → c.Ans × Connection
  | .accept _, s =>
    match s.refused with
    | 0 => ((s.fd : Int), s)
    | refused + 1 => ((-1 : Int), { s with refused })
  | .recv _ _, s =>
    match s.pieces with
    | piece :: pieces => (some piece.data, { s with pieces })
    | [] =>
      (match s.ending with
        | .closes => some []
        | .resets => none, s)
  | .close _, s => ((0 : Int), s)

/-- The bytes of so many pieces. -/
def received (pieces : List Piece) : List UInt8 := (pieces.map Piece.data).flatten

/-! ## The word -/

/-- "quit". -/
def quit : List UInt8 := [0x71, 0x75, 0x69, 0x74]

/-- `strstr` finds the word in front of the first 0. -/
theorem hasQuit_iff {data : List UInt8} :
    hasQuit data = true ↔ quit <:+: data.takeWhile (· ≠ 0) := by
  unfold hasQuit
  rw [List.any_eq_true, List.infix_iff_prefix_suffix]
  constructor
  · rintro ⟨rest, hrest, hpre⟩
    exact ⟨rest, List.isPrefixOf_iff_prefix.mp hpre, (List.mem_tails ..).mp hrest⟩
  · rintro ⟨rest, hpre, hrest⟩
    exact ⟨rest, (List.mem_tails ..).mpr hrest, List.isPrefixOf_iff_prefix.mpr hpre⟩

theorem infix_of_hasQuit {data : List UInt8} (h : hasQuit data = true) : quit <:+: data :=
  (hasQuit_iff.mp h).trans (List.takeWhile_prefix _).isInfix

/-- The memory from `buf` on, which is longer than `buf`. -/
def Buf.Room (buf : Buf) : Prop := 1024 < buf.mem.length

theorem room_zero {behind : List UInt8} (h : behind ≠ []) : (Buf.zero behind).Room := by
  have hpos := List.length_pos_iff.mpr h
  show 1024 < (List.replicate 1024 (0 : UInt8) ++ behind).length
  rw [List.length_append, List.length_replicate]
  omega

theorem Buf.Room.recvd {buf : Buf} (h : buf.Room) (piece : Piece) :
    ((buf.store piece.data).terminate piece.data.length).Room := by
  have hle := piece.le
  show 1024 < ((piece.data ++ buf.mem.drop piece.data.length).set piece.data.length 0).length
  rw [List.length_set, List.length_append, List.length_drop]
  unfold Buf.Room at h
  omega

/-- Whatever was in `buf` before: the 0 ends the string behind the new piece. -/
theorem hasQuit_recvd {buf : Buf} (h : buf.Room) (piece : Piece) :
    hasQuit ((buf.store piece.data).terminate piece.data.length).mem = hasQuit piece.data := by
  have hle := piece.le
  unfold Buf.Room at h
  have hmem : ((buf.store piece.data).terminate piece.data.length).mem =
      piece.data ++ 0 :: buf.mem.drop (piece.data.length + 1) := by
    show (piece.data ++ buf.mem.drop piece.data.length).set piece.data.length 0 = _
    rw [List.set_append_right _ _ (Nat.le_refl _), Nat.sub_self,
      List.drop_eq_getElem_cons (by omega), List.set_cons_zero]
  have htake : (piece.data ++ 0 :: buf.mem.drop (piece.data.length + 1)).takeWhile (· ≠ 0) =
      piece.data.takeWhile (· ≠ 0) := by
    rw [List.takeWhile_append]
    split
    · next hall =>
      have hself := (List.takeWhile_prefix (l := piece.data) (· ≠ 0)).eq_of_length hall
      rw [List.takeWhile_cons_of_neg (by simp), List.append_nil, hself]
    · rfl
  unfold hasQuit
  rw [hmem, htake]

/-! ## Runs of the loop -/

/-- The pieces that the loop takes: up to the first in which it finds the word. -/
def handled : List Piece → List Piece
  | [] => []
  | piece :: pieces => if hasQuit piece.data then [piece] else piece :: handled pieces

variable {connect_fd : Int} {s : Connection} {got rest pieces : List Piece} {piece : Piece}

/-- One turn with a piece of the stream. -/
theorem run_recv_piece {fuel : Nat} {buf : Buf} (h : buf.Room) (hs : s.pieces = piece :: rest) :
    (recvLoop connect_fd (fuel + 1) buf).run Connection.sys s =
      if hasQuit piece.data then
        ((some true, (buf.store piece.data).terminate piece.data.length), { s with pieces := rest })
      else (recvLoop connect_fd fuel ((buf.store piece.data).terminate piece.data.length)).run
        Connection.sys { s with pieces := rest } := by
  have hpos : piece.data.length ≠ 0 := Nat.pos_iff_ne_zero.mp piece.pos
  simp only [recvLoop, Prog.run_call, Connection.sys, hs, if_pos hpos, hasQuit_recvd h]
  split <;> rfl

/-- After as many calls of `recv` as there are pieces in `got`. -/
theorem run_recvLoop {buf : Buf} (h : buf.Room) (hs : s.pieces = got ++ rest) :
    ((recvLoop connect_fd got.length buf).run Connection.sys s).1.1 =
        (if got.any fun piece => hasQuit piece.data then some true else none) ∧
      ((recvLoop connect_fd got.length buf).run Connection.sys s).1.2.outside =
        (buf.outside || (handled got).any fun piece => decide (1024 ≤ piece.data.length)) := by
  induction got generalizing buf s with
  | nil => simp [recvLoop, handled]
  | cons piece got ih =>
    rw [List.length_cons, run_recv_piece h hs, List.any_cons, handled]
    by_cases hquit : hasQuit piece.data = true
    · simp only [hquit, if_true, Bool.true_or, List.any_cons, List.any_nil, Bool.or_false]
      exact ⟨trivial, rfl⟩
    · obtain ⟨hended, houtside⟩ := ih (h.recvd piece) (s := { s with pieces := got ++ rest }) rfl
      simp only [hquit, if_false, Bool.false_or, List.any_cons, Bool.false_eq_true]
      refine ⟨hended, houtside.trans ?_⟩
      exact Bool.or_assoc ..

theorem handled_eq_self (h : ∀ piece ∈ got, hasQuit piece.data = false) :
    handled (got ++ [piece]) = got ++ [piece] := by
  induction got with
  | nil =>
    show (if _ then _ else _) = [piece]
    split <;> rfl
  | cons p got ih =>
    have hp := h p (List.mem_cons_self ..)
    rw [List.cons_append, handled, hp, if_neg Bool.false_ne_true,
      ih fun q hq => h q (List.mem_cons_of_mem _ hq)]

/-- What the loop takes comes before any word found. -/
theorem of_mem_handled (h : piece ∈ handled pieces) :
    ∃ got, got ++ [piece] <+: pieces ∧ ∀ p ∈ got, hasQuit p.data = false := by
  induction pieces with
  | nil => cases h
  | cons p pieces ih =>
    rw [handled] at h
    split at h
    · obtain rfl := List.mem_singleton.mp h
      exact ⟨[], ⟨pieces, rfl⟩, nofun⟩
    · next hp =>
      rcases List.mem_cons.mp h with rfl | hmem
      · exact ⟨[], ⟨pieces, rfl⟩, nofun⟩
      · obtain ⟨got, hpre, hgot⟩ := ih hmem
        refine ⟨p :: got, (List.cons_prefix_cons ..).mpr ⟨rfl, hpre⟩, ?_⟩
        intro q hq
        rcases List.mem_cons.mp hq with rfl | hq
        · exact Bool.eq_false_iff.mpr hp
        · exact hgot q hq

/-! ## When the session ends -/

/-- After so many calls of `recv`: whether the loop has been left, and `buf`. -/
def afterRecvs (behind : List UInt8) (s : Connection) (k : Nat) : Option Bool × Buf :=
  ((recvLoop s.fd k (.zero behind)).run Connection.sys s).1

/-- The loop is left with the call of `recv` with which the bytes received contain "quit" for the
first time, and it has not written outside of `buf`. -/
def EndsRight (behind : List UInt8) (s : Connection) : Prop :=
  ∀ got, got <+: s.pieces → (afterRecvs behind s got.length).2.outside = false ∧
    ((afterRecvs behind s got.length).1 ≠ none ↔ quit <:+: received got)

/-- As long as "quit" has not been received: a piece does not fill `buf`, and if "quit" is complete
with it, then it has a "quit" of its own, in front of its first 0. -/
def Whole (pieces : List Piece) : Prop :=
  ∀ got piece, got ++ [piece] <+: pieces → ¬ quit <:+: received got →
    piece.data.length < 1024 ∧ (quit <:+: received (got ++ [piece]) → hasQuit piece.data = true)

theorem whole_iff {pieces : List Piece} : Whole pieces ↔ ∀ k, (hk : k < pieces.length) →
    ¬ quit <:+: received (pieces.take k) → pieces[k].data.length < 1024 ∧
      (quit <:+: received (pieces.take (k + 1)) → hasQuit pieces[k].data = true) := by
  constructor
  · intro h k hk hnot
    rw [List.take_succ_eq_append_getElem hk]
    refine h _ _ ?_ hnot
    rw [← List.take_succ_eq_append_getElem hk]
    exact List.take_prefix _ _
  · rintro h got piece ⟨rest, rfl⟩ hnot
    have hk := h got.length (by simp)
    have htake : (got ++ [piece] ++ rest).take (got.length + 1) = got ++ [piece] :=
      List.take_left' (by simp)
    rw [htake] at hk
    simpa using hk (by simpa using hnot)

instance (pieces : List Piece) : Decidable (Whole pieces) := decidable_of_iff _ whole_iff.symm

theorem received_append {got' : List Piece} :
    received (got ++ got') = received got ++ received got' := by
  unfold received
  rw [List.map_append, List.flatten_append]

theorem infix_received (hmem : piece ∈ pieces) (hquit : hasQuit piece.data = true) :
    quit <:+: received pieces := by
  obtain ⟨before, after, rfl⟩ := List.append_of_mem hmem
  have hreceived : received (before ++ piece :: after) =
      received before ++ piece.data ++ received after := by
    rw [received_append, List.append_assoc]
    rfl
  rw [hreceived]
  exact (infix_of_hasQuit hquit).trans (List.infix_append ..)

/-- Then the word is found as soon as it has been received. -/
theorem Whole.found (h : Whole pieces) (hgot : got <+: pieces) (hquit : quit <:+: received got) :
    ∃ piece ∈ got, hasQuit piece.data = true := by
  induction got using List.reverseRecOn with
  | nil =>
    have hnil : quit = [] := List.infix_nil.mp hquit
    cases hnil
  | append_singleton got piece ih =>
    by_cases hbefore : quit <:+: received got
    · obtain ⟨p, hp, hfound⟩ := ih ((List.prefix_append ..).trans hgot) hbefore
      exact ⟨p, List.mem_append_left _ hp, hfound⟩
    · exact ⟨piece, List.mem_append_right _ (List.mem_singleton_self _),
        (h got piece hgot hbefore).2 hquit⟩

theorem ended_iff {behind : List UInt8} (hbehind : behind ≠ []) (hgot : got <+: s.pieces) :
    (afterRecvs behind s got.length).1 ≠ none ↔ ∃ piece ∈ got, hasQuit piece.data = true := by
  obtain ⟨rest, hrest⟩ := hgot
  unfold afterRecvs
  rw [(run_recvLoop (room_zero hbehind) hrest.symm).1, ← List.any_eq_true]
  split
  · next hany => simp [hany]
  · next hany => simp [hany]

theorem outside_iff {behind : List UInt8} (hbehind : behind ≠ []) (hgot : got <+: s.pieces) :
    (afterRecvs behind s got.length).2.outside = false ↔
      ∀ piece ∈ handled got, piece.data.length < 1024 := by
  obtain ⟨rest, hrest⟩ := hgot
  unfold afterRecvs
  rw [(run_recvLoop (room_zero hbehind) hrest.symm).2]
  show (false || _) = false ↔ _
  rw [Bool.false_or, List.any_eq_false]
  simp only [decide_eq_true_eq, Nat.not_le]

/-- **When the session ends**: whatever is in memory behind `buf`, a session ends with the call of
`recv` with which "quit" has been received, and writes nothing outside of `buf`, if and only if the
cut of the stream keeps the word whole and no piece fills `buf`. Two such cuts of one stream make
the server end both times or neither time. -/
theorem session_end_iff (behind : List UInt8) (hbehind : behind ≠ []) (s : Connection) :
    (EndsRight behind s ↔ Whole s.pieces) ∧
      ∀ s' : Connection, received s'.pieces = received s.pieces → Whole s.pieces →
        Whole s'.pieces → ((afterRecvs behind s s.pieces.length).1 ≠ none ↔
          (afterRecvs behind s' s'.pieces.length).1 ≠ none) := by
  have hright : ∀ {s : Connection}, Whole s.pieces → EndsRight behind s := by
    intro s h got hgot
    rw [ended_iff hbehind hgot, outside_iff hbehind hgot]
    refine ⟨fun piece hpiece => ?_, fun ⟨piece, hmem, hquit⟩ => infix_received hmem hquit,
      h.found hgot⟩
    -- no word has been found before this piece, so none has been received
    obtain ⟨before, hbefore, hnone⟩ := of_mem_handled hpiece
    refine (h before piece (hbefore.trans hgot) fun hquit => ?_).1
    obtain ⟨p, hp, hfound⟩ :=
      h.found (((List.prefix_append ..).trans hbefore).trans hgot) hquit
    rw [hnone p hp] at hfound
    cases hfound
  constructor
  · refine ⟨fun h got piece hgot hquit => ?_, hright⟩
    have hbefore := (h got ((List.prefix_append ..).trans hgot)).2
    rw [ended_iff hbehind ((List.prefix_append ..).trans hgot)] at hbefore
    have hnone : ∀ p ∈ got, hasQuit p.data = false := by
      intro p hp
      by_contra hfound
      exact hquit (hbefore.mp ⟨p, hp, by simpa using hfound⟩)
    obtain ⟨hinside, hended⟩ := h (got ++ [piece]) hgot
    rw [outside_iff hbehind hgot, handled_eq_self hnone] at hinside
    rw [ended_iff hbehind hgot] at hended
    refine ⟨hinside piece (List.mem_append_right _ (List.mem_singleton_self _)), fun hnow => ?_⟩
    obtain ⟨p, hp, hfound⟩ := hended.mpr hnow
    rcases List.mem_append.mp hp with hp | hp
    · rw [hnone p hp] at hfound
      cases hfound
    · rwa [List.mem_singleton.mp hp] at hfound
  · intro s' hsame h h'
    rw [(hright h _ List.prefix_rfl).2, (hright h' _ List.prefix_rfl).2, hsame]

/-- "Hello, world!" and "quit!" in one piece each. -/
def hello : List Piece :=
  [⟨[0x48, 0x65, 0x6c, 0x6c, 0x6f], by decide, by decide⟩,
    ⟨[0x71, 0x75, 0x69, 0x74, 0x21], by decide, by decide⟩]

/-- The same stream in other pieces. -/
def helloCut : List Piece :=
  [⟨[0x48, 0x65, 0x6c], by decide, by decide⟩, ⟨[0x6c, 0x6f], by decide, by decide⟩,
    ⟨[0x71, 0x75, 0x69, 0x74], by decide, by decide⟩, ⟨[0x21], by decide, by decide⟩]

theorem session_end_iff_hello : EndsRight [0] ⟨0, 4, hello, .closes⟩ ∧
    (afterRecvs [0] ⟨0, 4, helloCut, .closes⟩ helloCut.length).1 ≠ none := by
  obtain ⟨hiff, hsame⟩ := session_end_iff [0] (by decide) ⟨0, 4, hello, .closes⟩
  have hright : EndsRight [0] ⟨0, 4, hello, .closes⟩ := hiff.mpr (by decide)
  refine ⟨hright, (hsame ⟨0, 4, helloCut, .closes⟩ (by decide) (by decide) (by decide)).mp ?_⟩
  exact (hright hello List.prefix_rfl).2.mpr (by decide)

/-- "qu" and "it" in two pieces are not found. -/
theorem cut_word_not_found : ¬ EndsRight [0] ⟨0, 4, [⟨[0x71, 0x75], by decide, by decide⟩,
    ⟨[0x69, 0x74], by decide, by decide⟩], .closes⟩ := by
  intro h
  have hcut := (h _ List.prefix_rfl).2
  rw [ended_iff (by decide) List.prefix_rfl] at hcut
  obtain ⟨piece, hmem, hquit⟩ := hcut.mpr ⟨[], [], rfl⟩
  simp only [List.mem_cons, List.not_mem_nil, or_false] at hmem
  rcases hmem with rfl | rfl <;> revert hquit <;> decide

/-! ## Whether it ends -/

/-- Some number of turns of the two loops is enough for `msg_process`: it makes only so many calls,
and returns. -/
def Returns (behind : List UInt8) (sockfd : Int) (s : Connection) : Prop :=
  ∃ fuel, ((msgProcess behind sockfd fuel).run Connection.sys s).1 ≠ none

/-- The loop over `accept` goes on until it succeeds. -/
theorem run_acceptLoop (sockfd : Int) (fuel : Nat) :
    (acceptLoop sockfd fuel).run Connection.sys s =
      if s.refused < fuel then (some (s.fd : Int), { s with refused := 0 })
      else (none, { s with refused := s.refused - fuel }) := by
  induction fuel generalizing s with
  | zero => rfl
  | succ fuel ih =>
    obtain ⟨refused, fd, pieces, ending⟩ := s
    cases refused with
    | zero =>
      have hfd : (fd : Int) ≠ -1 := by omega
      rw [if_pos (Nat.zero_lt_succ fuel)]
      show (if (fd : Int) = -1 then acceptLoop sockfd fuel else .ret (some (fd : Int))).run
        Connection.sys _ = _
      rw [if_neg hfd, Prog.run_ret]
      rfl
    | succ refused =>
      simp only [acceptLoop, Prog.run_call, Connection.sys, if_true, ih, Nat.add_lt_add_iff_right,
        Nat.add_sub_add_right]

/-- The call of `recv` that has nothing to deliver. -/
theorem run_recv_end {fuel : Nat} {buf : Buf} (hs : s.pieces = []) :
    (recvLoop connect_fd (fuel + 1) buf).run Connection.sys s =
      match s.ending with
      | .closes => (recvLoop connect_fd fuel buf).run Connection.sys s
      | .resets => ((some false, buf), s) := by
  simp only [recvLoop, Prog.run_call, Connection.sys, hs]
  cases s.ending <;> rfl

/-- With the word in one of the pieces, or a reset, the loop is left. -/
theorem recvLoop_left {fuel : Nat} {buf : Buf} (h : buf.Room) (hfuel : s.pieces.length < fuel)
    (hends : s.ending = .resets ∨ ∃ piece ∈ s.pieces, hasQuit piece.data = true) :
    ((recvLoop connect_fd fuel buf).run Connection.sys s).1.1 ≠ none := by
  obtain ⟨refused, fd, pieces, ending⟩ := s
  induction pieces generalizing fuel buf with
  | nil =>
    obtain ⟨fuel, rfl⟩ := Nat.exists_eq_succ_of_ne_zero (Nat.ne_zero_of_lt hfuel)
    have hreset : ending = .resets := hends.resolve_right (by simp)
    rw [Nat.succ_eq_add_one, run_recv_end rfl]
    simp [hreset]
  | cons piece pieces ih =>
    obtain ⟨fuel, rfl⟩ := Nat.exists_eq_succ_of_ne_zero (Nat.ne_zero_of_lt hfuel)
    rw [Nat.succ_eq_add_one, run_recv_piece h rfl]
    by_cases hquit : hasQuit piece.data = true
    · simp [hquit]
    · rw [if_neg hquit]
      refine ih (h.recvd piece) (Nat.lt_of_succ_lt_succ hfuel) (hends.imp_right ?_)
      rintro ⟨p, hp, hfound⟩
      rcases List.mem_cons.mp hp with rfl | hp
      · exact absurd hfound hquit
      · exact ⟨p, hp, hfound⟩

/-- Without either, `recv` returns 0 again and again. -/
theorem recvLoop_stays {fuel : Nat} {buf : Buf} (h : buf.Room) (hcloses : s.ending = .closes)
    (hnone : ∀ piece ∈ s.pieces, hasQuit piece.data = false) :
    ((recvLoop connect_fd fuel buf).run Connection.sys s).1.1 = none := by
  induction fuel generalizing buf s with
  | zero => rfl
  | succ fuel ih =>
    cases hs : s.pieces with
    | nil =>
      rw [run_recv_end hs, hcloses]
      exact ih h hcloses hnone
    | cons piece pieces =>
      rw [run_recv_piece h hs, hnone piece (hs ▸ List.mem_cons_self ..),
        if_neg Bool.false_ne_true]
      refine ih (h.recvd piece) hcloses ?_
      intro p hp
      exact hnone p (hs ▸ List.mem_cons_of_mem _ hp)

/-- `msg_process` returns if it has accepted a connection and left the loop over `recv`. -/
theorem run_msgProcess (behind : List UInt8) (sockfd : Int) (fuel : Nat) :
    ((msgProcess behind sockfd fuel).run Connection.sys s).1 ≠ none ↔ s.refused < fuel ∧
      ((recvLoop s.fd fuel (.zero behind)).run Connection.sys { s with refused := 0 }).1.1 ≠
        none := by
  unfold msgProcess
  rw [Prog.run_bind, run_acceptLoop]
  by_cases hfuel : s.refused < fuel
  · rw [if_pos hfuel, and_iff_right hfuel]
    show (((recvLoop s.fd fuel (.zero behind)).bind _).run Connection.sys
      { s with refused := 0 }).1 ≠ none ↔ _
    rw [Prog.run_bind]
    split
    · next hnone => simp [hnone]
    · next hend => simp [hend]
    · next hend => simp [hend]
  · rw [if_neg hfuel]
    exact iff_of_false (fun h => h rfl) fun h => hfuel h.1

/-- **A finite session ends** if and only if the client resets the connection, or one of the pieces
has the word in front of its first 0. -/
theorem session_returns_iff (behind : List UInt8) (hbehind : behind ≠ []) (sockfd : Int)
    (s : Connection) : Returns behind sockfd s ↔
      s.ending = .resets ∨ ∃ piece ∈ s.pieces, hasQuit piece.data = true := by
  have hroom := room_zero hbehind
  constructor
  · rintro ⟨fuel, hreturns⟩
    by_contra hends
    obtain ⟨hcloses, hnone⟩ := not_or.mp hends
    refine ((run_msgProcess behind sockfd fuel).mp hreturns).2 ?_
    refine recvLoop_stays hroom ?_ fun piece hmem => ?_
    · show s.ending = .closes
      cases hending : s.ending with
      | closes => rfl
      | resets => exact absurd hending hcloses
    · by_contra hfound
      exact hnone ⟨piece, hmem, by simpa using hfound⟩
  · intro hends
    refine ⟨s.refused + s.pieces.length + 1, (run_msgProcess behind sockfd _).mpr ⟨by omega, ?_⟩⟩
    refine recvLoop_left hroom ?_ hends
    show s.pieces.length < _
    omega

theorem session_returns_iff_hello : Returns [0] 3 ⟨2, 4, hello, .closes⟩ :=
  (session_returns_iff [0] (by decide) 3 ⟨2, 4, hello, .closes⟩).mpr
    (.inr ⟨_, List.mem_cons_of_mem _ (List.mem_singleton_self _), by decide⟩)

/-- A client that sends nothing and closes keeps the server busy for ever. -/
theorem closed_never_returns : ¬ Returns [0] 3 ⟨0, 4, [], .closes⟩ := by
  rintro ⟨fuel, hreturns⟩
  refine ((run_msgProcess [0] 3 fuel).mp hreturns).2 ?_
  exact recvLoop_stays (room_zero (by decide)) rfl nofun

/-! ## The same loop in the machine -/

/-- A call of `recv` leads out of the loop of `msg_process` exactly if it does so in the machine of
all the threads, and by the same way. -/
theorem remoteProcess_recv {b : Build} {σ : State} {sockfd : Int}
    (hpc : σ.remote = .recv sockfd connect_fd) {buf : Buf} (h : buf.Room)
    (hs : s.pieces = piece :: rest) :
    remoteProcess b σ (.received piece.data) =
      match ((recvLoop connect_fd 1 buf).run Connection.sys s).1.1 with
      | some true => some (σ.goto (.closeConnect sockfd connect_fd))
      | some false => some (σ.goto .socket)
      | none => some σ := by
  have hle : ¬ 1024 < piece.data.length := Nat.not_lt.mpr piece.le
  rw [run_recv_piece h hs]
  simp only [remoteProcess, hpc, if_neg hle]
  split <;> rfl

end EngineerLinux.InheritProcess
