import EngineerLinux.Lib.FileTree
import Mathlib.Data.List.Infix

/-!
# Paths in a tree of files

What a path leads to, through symbolic links, and what can be said of it while the tree changes.

A path is walked part by part; a link on the way is replaced by the walk along its target, with a
bound on how many are followed. So the walk is a recursion on the bound and, inside, on the parts,
and the lemmas about it come in the same two steps, `walkFrom_..` for the parts and `walk_..` for
the whole. A place that is known only by a path is followed through changes of the tree by
`Denotes`, which says at once what all longer paths lead to.

- `Tree.resolve`: the lookup of a path;
- `Denotes`: a path leads to a directory whatever is inside two given places. `Denotes.absent`,
  `Denotes.leaf`, `Denotes.noFollow` and `Denotes.fail` say what the longer paths lead to;
- `denotes_realPath`: the plain path of a directory denotes it.
-/

namespace Files

/-- The parts of a path between its slashes. -/
def split : Text → List Text
  | [] => [[]]
  | c :: cs =>
    if c = '/' then [] :: split cs
    else
      match split cs with
      | [] => [[c]]
      | n :: ns => (c :: n) :: ns

/-- The place that names lead to from a place on. -/
def below (l : Loc) (a : List Text) : Loc := a.foldl (fun l n => n :: l) l

/-- The path with names added to it. -/
def extend (p : Text) (a : List Text) : Text := a.foldl (fun p n => p ++ '/' :: n) p

/-- Strictly inside a place. -/
def Inside (s l : Loc) : Prop := s <:+ l ∧ l ≠ s

instance (s l : Loc) : Decidable (Inside s l) := inferInstanceAs (Decidable (_ ∧ _))

/-- What a path leads to: an entry, a place in a directory where there is none, or neither. -/
inductive Lookup where
  | entry (l : Loc)
  | absent (l : Loc) (n : Text)
  | fail
  deriving DecidableEq

/-- Where a path starts. -/
def start (cwd : Loc) (p : Text) : Loc := if p.head? = some '/' then [] else cwd

variable {t t' : Tree} {l s d cwd : Loc} {n : Text} {a b : List Text} {p : Text} {follow : Bool}

/-! ## The parts of a path -/

theorem split_ne_nil (p : Text) : split p ≠ [] := by
  cases p with
  | nil => nofun
  | cons c cs =>
    unfold split
    split
    · nofun
    · split <;> nofun

theorem split_append (p q : Text) : split (p ++ '/' :: q) = split p ++ split q := by
  induction p with
  | nil => rfl
  | cons c cs ih =>
    rw [List.cons_append, split, split, ih]
    split
    · rfl
    · cases hcs : split cs with
      | nil => exact absurd hcs (split_ne_nil cs)
      | cons m ms => rfl

theorem split_name (h : '/' ∉ n) : split n = [n] := by
  induction n with
  | nil => rfl
  | cons c cs ih =>
    rw [List.mem_cons, not_or] at h
    rw [split, if_neg (fun hc => h.1 hc.symm), ih h.2]

namespace Tree

/-! ## The lookup -/

/-- Follow the parts of a path. `jump` is the walk after one more symbolic link. -/
def walkFrom (t : Tree) (jump : Loc → List Text → Lookup) (follow : Bool) :
    Loc → List Text → Lookup
  | l, [] => .entry l
  | l, n :: rest =>
    if t.isDir l = false then .fail
    else if n = [] ∨ n = ['.'] then walkFrom t jump follow l rest
    else if n = ['.', '.'] then walkFrom t jump follow l.tail rest
    else
      match t.entry (n :: l) with
      | none => if rest = [] then .absent l n else .fail
      | some (.lnk target) =>
        if rest = [] ∧ follow = false then .entry (n :: l)
        else jump (start l target) (split target ++ rest)
      | some _ => walkFrom t jump follow (n :: l) rest

/-- The walk over at most `k` symbolic links. -/
def walk (t : Tree) (follow : Bool) : (k : Nat) → Loc → List Text → Lookup
  | 0 => t.walkFrom (fun _ _ => .fail) follow
  | k + 1 => t.walkFrom (t.walk follow k) follow

/-- What a path leads to; if `follow` is false, a symbolic link at its end leads nowhere else. -/
def resolve (t : Tree) (cwd : Loc) (follow : Bool) (p : Text) : Lookup :=
  if p = [] then .fail else t.walk follow 40 (start cwd p) (split p)

/-- What is found depends on the entries alone. -/
theorem walkFrom_congr (h : t'.entry = t.entry) (jump : Loc → List Text → Lookup) (follow : Bool) :
    t'.walkFrom jump follow = t.walkFrom jump follow := by
  funext l q
  induction q generalizing l with
  | nil => rfl
  | cons n q ih => rw [walkFrom, walkFrom, isDir_congr (congrFun h l), h, ih, ih, ih]

theorem resolve_congr (h : t'.entry = t.entry) : t'.resolve = t.resolve := by
  have hwalk : ∀ follow k, t'.walk follow k = t.walk follow k := by
    intro follow k
    induction k with
    | zero => exact walkFrom_congr h _ follow
    | succ k ih =>
      rw [walk, walk, ih]
      exact walkFrom_congr h _ follow
  funext cwd follow p
  rw [resolve, resolve, hwalk]

/-! ## One part after another -/

theorem exists_walk (t : Tree) (follow : Bool) (k : Nat) :
    ∃ jump, t.walk follow k = t.walkFrom jump follow := by
  cases k with
  | zero => exact ⟨_, rfl⟩
  | succ k => exact ⟨_, rfl⟩

/-- In a directory, a proper name is looked up. -/
theorem walkFrom_name (jump : Loc → List Text → Lookup) (follow : Bool) (hl : t.isDir l = true)
    (hn : IsName n) (rest : List Text) :
    t.walkFrom jump follow l (n :: rest) =
      match t.entry (n :: l) with
      | none => if rest = [] then .absent l n else .fail
      | some (.lnk target) =>
        if rest = [] ∧ follow = false then .entry (n :: l)
        else jump (start l target) (split target ++ rest)
      | some _ => t.walkFrom jump follow (n :: l) rest := by
  rw [walkFrom, if_neg (by rw [hl]; nofun), if_neg (not_or.mpr ⟨hn.1, hn.2.1⟩), if_neg hn.2.2.1]

/-- Through a directory the walk goes on. -/
theorem walk_dir (follow : Bool) (k : Nat) (hdir : t.isDir (n :: l) = true) (rest : List Text) :
    t.walk follow k l (n :: rest) = t.walk follow k (n :: l) rest := by
  obtain ⟨jump, hjump⟩ := exists_walk t follow k
  obtain ⟨mode, hmode⟩ := isDir_iff.mp hdir
  have hne : t.entry (n :: l) ≠ none := by
    rw [hmode]
    nofun
  rw [hjump, walkFrom_name jump follow (isDir_of_entry hne) (t.names n l hne), hmode]

theorem walk_absent (follow : Bool) (k : Nat) (hl : t.isDir l = true) (hn : IsName n)
    (hnone : t.entry (n :: l) = none) : t.walk follow k l [n] = .absent l n := by
  obtain ⟨jump, hjump⟩ := exists_walk t follow k
  rw [hjump, walkFrom_name jump follow hl hn, hnone]
  rfl

/-- An entry that is no link, or at which the walk does not follow links. -/
theorem walk_entry (follow : Bool) (k : Nat) {e : Entry} (h : t.entry (n :: l) = some e)
    (hlnk : follow = false ∨ ∀ target, e ≠ .lnk target) :
    t.walk follow k l [n] = .entry (n :: l) := by
  obtain ⟨jump, hjump⟩ := exists_walk t follow k
  have hne : t.entry (n :: l) ≠ none := by
    rw [h]
    nofun
  rw [hjump, walkFrom_name jump follow (isDir_of_entry hne) (t.names n l hne), h]
  -- only a link can be followed
  cases e with
  | lnk target =>
    rcases hlnk with rfl | hlnk
    · rfl
    · exact absurd rfl (hlnk target)
  | reg | dir | other => rfl

theorem walk_fail (follow : Bool) (k : Nat) (hl : t.isDir l = false) (rest : List Text) :
    t.walk follow k l (n :: rest) = .fail := by
  obtain ⟨jump, hjump⟩ := exists_walk t follow k
  rw [hjump, walkFrom, if_pos hl]

/-- If there is anything, there is the root. -/
theorem root_ne_none (h : t.entry l ≠ none) : t.entry [] ≠ none := by
  induction l with
  | nil => exact h
  | cons n l ih =>
    obtain ⟨mode, hmode⟩ := t.parents n l h
    exact ih (by rw [hmode]; exact Option.some_ne_none _)

/-- From an entry, the walk ends at an entry. -/
theorem walkFrom_ne_none {jump : Loc → List Text → Lookup} {l' : Loc} {parts : List Text}
    (hjump : ∀ l parts, t.entry l ≠ none → jump l parts = .entry l' → t.entry l' ≠ none)
    (hl : t.entry l ≠ none) (h : t.walkFrom jump follow l parts = .entry l') :
    t.entry l' ≠ none := by
  induction parts generalizing l with
  | nil =>
    cases h
    exact hl
  | cons n rest ih =>
    rw [walkFrom] at h
    split at h
    · cases h
    · split at h
      · exact ih hl h
      · split at h
        -- `..` leads to the parent, which is there if anything is
        · refine ih ?_ h
          cases l with
          | nil => exact hl
          | cons m l =>
            obtain ⟨mode, hmode⟩ := t.parents m l hl
            rw [List.tail_cons, hmode]
            nofun
        · split at h
          · split at h <;> cases h
          · next target htarget =>
            split at h
            · cases h
              rw [htarget]
              nofun
            -- a link is followed from where its target starts
            · refine hjump _ _ ?_ h
              unfold start
              split
              · exact root_ne_none hl
              · exact hl
          · next e _ hentry =>
            exact ih (by rw [hentry]; exact Option.some_ne_none _) h

/-- **What a path leads to is there**. -/
theorem resolve_ne_none {l' : Loc} (h : t.resolve cwd follow p = .entry l') :
    t.entry l' ≠ none := by
  have hwalk : ∀ k l parts, t.entry l ≠ none → t.walk follow k l parts = .entry l' →
      t.entry l' ≠ none := by
    intro k
    induction k with
    -- after 40 links no more are followed
    | zero => exact fun l parts hl hw => walkFrom_ne_none (fun _ _ _ hf => by cases hf) hl hw
    | succ k ih => exact fun l parts hl hw => walkFrom_ne_none ih hl hw
  unfold resolve at h
  split at h
  · cases h
  · refine hwalk 40 _ _ ?_ h
    -- the walk has looked something up in the directory where it starts
    obtain ⟨jump, hjump⟩ := exists_walk t follow 40
    rw [hjump] at h
    cases hsplit : split p with
    | nil => exact absurd hsplit (split_ne_nil p)
    | cons n rest =>
      rw [hsplit, walkFrom] at h
      split at h
      · cases h
      · next hdir =>
        rw [Bool.not_eq_false] at hdir
        obtain ⟨mode, hmode⟩ := isDir_iff.mp hdir
        rw [hmode]
        nofun

end Tree

/-! ## Places and paths below a directory -/

@[simp] theorem below_nil : below l [] = l := rfl

@[simp] theorem below_cons : below l (n :: a) = below (n :: l) a := rfl

@[simp] theorem below_append : below l (a ++ b) = below (below l a) b := List.foldl_append ..

theorem below_eq (l : Loc) (a : List Text) : below l a = a.reverse ++ l := by
  induction a generalizing l with
  | nil => rfl
  | cons n a ih => rw [below_cons, ih, List.reverse_cons, List.append_assoc, List.singleton_append]

theorem below_reverse (l : Loc) : below [] l.reverse = l := by
  rw [below_eq, List.reverse_reverse, List.append_nil]

/-- Different ways down end at different places. -/
theorem below_inj (h : below l a = below l b) : a = b := by
  rw [below_eq, below_eq] at h
  exact List.reverse_injective (List.append_cancel_right h)

theorem suffix_below (l : Loc) (a : List Text) : l <:+ below l a := by
  rw [below_eq]
  exact List.suffix_append ..

/-- Everything that has a place as its suffix is below it. -/
theorem exists_below (h : s <:+ l) : ∃ a, l = below s a := by
  obtain ⟨r, rfl⟩ := h
  exact ⟨r.reverse, by rw [below_eq, List.reverse_reverse]⟩

/-- One place is below another exactly if the one way starts with the other. -/
theorem below_suffix_below : below l a <:+ below l b ↔ a <+: b := by
  constructor
  · intro h
    obtain ⟨c, hc⟩ := exists_below h
    rw [← below_append] at hc
    exact ⟨c, (below_inj hc).symm⟩
  · rintro ⟨c, rfl⟩
    rw [below_append]
    exact suffix_below ..

theorem inside_below (l : Loc) (h : a ≠ []) : Inside l (below l a) := by
  refine ⟨suffix_below l a, ?_⟩
  intro heq
  exact h (below_inj (heq.trans below_nil.symm))

/-- Of two places not inside each other, nothing is below both. -/
theorem below_ne_below (hsd : ¬ s <:+ d) (hds : ¬ d <:+ s) : below s a ≠ below d b := by
  intro heq
  rcases List.suffix_or_suffix_of_suffix (suffix_below s a) (heq ▸ suffix_below d b) with h | h
  · exact hsd h
  · exact hds h

/-- Only directories are on the way to something. -/
theorem Tree.isDir_of_below (h : t.entry (below l (n :: a)) ≠ none) : t.isDir l = true := by
  induction a generalizing l n with
  | nil => exact Tree.isDir_of_entry h
  | cons m a ih =>
    obtain ⟨mode, hmode⟩ := Tree.isDir_iff.mp (ih (l := n :: l) (n := m) h)
    exact Tree.isDir_of_entry (n := n) (by rw [hmode]; exact Option.some_ne_none _)

theorem Tree.entry_ne_none (h : t.isDir l = true) : t.entry l ≠ none := by
  obtain ⟨mode, hmode⟩ := Tree.isDir_iff.mp h
  rw [hmode]
  nofun

/-- The walk goes down to a directory. -/
theorem Tree.walk_below {k : Nat} {q : List Text} (h : t.isDir (below l a) = true) :
    t.walk follow k l (a ++ q) = t.walk follow k (below l a) q := by
  induction a generalizing l with
  | nil => rfl
  | cons n a ih =>
    have hdir : t.isDir (n :: l) = true := by
      cases a with
      | nil => exact h
      | cons m a => exact Tree.isDir_of_below (Tree.entry_ne_none h)
    rw [List.cons_append, Tree.walk_dir follow k hdir, ih h, below_cons]

theorem Tree.isName_of_below (h : t.entry (below l a) ≠ none) : ∀ n ∈ a, IsName n := by
  induction a generalizing l with
  | nil => nofun
  | cons m a ih =>
    have hm : t.entry (m :: l) ≠ none := by
      cases a with
      | nil => exact h
      | cons k a => exact Tree.entry_ne_none (Tree.isDir_of_below h)
    intro n hn
    rcases List.mem_cons.mp hn with rfl | hn
    · exact t.names n l hm
    · exact ih h n hn

@[simp] theorem extend_nil : extend p [] = p := rfl

@[simp] theorem extend_cons : extend p (n :: a) = extend (p ++ '/' :: n) a := rfl

@[simp] theorem extend_append : extend p (a ++ b) = extend (extend p a) b := List.foldl_append ..

/-- Every name makes the path longer. -/
theorem length_extend (p : Text) (a : List Text) : p.length + a.length ≤ (extend p a).length := by
  induction a generalizing p with
  | nil => exact Nat.le_refl _
  | cons n a ih =>
    have := ih (p ++ '/' :: n)
    rw [List.length_append, List.length_cons] at this
    rw [extend_cons, List.length_cons]
    omega

theorem split_extend (p : Text) (h : ∀ n ∈ a, '/' ∉ n) : split (extend p a) = split p ++ a := by
  induction a generalizing p with
  | nil => rw [extend_nil, List.append_nil]
  | cons n a ih =>
    rw [extend_cons, ih _ (fun m hm => h m (List.mem_cons_of_mem _ hm)), split_append,
      split_name (h n (List.mem_cons_self ..)), List.append_assoc, List.singleton_append]

/-- Where a path starts does not depend on what follows a slash. -/
theorem start_append (cwd : Loc) (p q : Text) :
    start cwd (p ++ '/' :: q) = start cwd (p ++ ['/']) := by
  cases p with
  | nil => rfl
  | cons c cs => rfl

theorem start_extend (cwd : Loc) (p q : Text) (a : List Text) :
    start cwd (extend p a ++ '/' :: q) = start cwd (p ++ ['/']) := by
  induction a generalizing p with
  | nil => exact start_append cwd p q
  | cons n a ih => rw [extend_cons, ih, List.append_assoc, List.cons_append, start_append]

/-! ## What a path denotes -/

/-- Two trees that differ at most inside `s` and inside `d`. -/
def SameBut (s d : Loc) (t t' : Tree) : Prop :=
  ∀ l, ¬ Inside s l → ¬ Inside d l → t'.entry l = t.entry l

/-- **`p` denotes `l`**, whatever happens inside `s` and inside `d`: where the names of a longer
path are looked up is `l`. -/
def Denotes (t : Tree) (cwd s d : Loc) (p : Text) (l : Loc) : Prop :=
  ∃ k, ∀ t', SameBut s d t t' → ∀ follow q, q ≠ [] →
    t'.walk follow 40 (start cwd (p ++ ['/'])) (split p ++ q) = t'.walk follow k l q

namespace Denotes

/-- A path below the one that denotes `l` is looked up below `l`. -/
theorem resolve (h : Denotes t cwd s d p l) : ∃ k, ∀ t', SameBut s d t t' →
    ∀ a, a = [] ∨ t'.isDir (below l a) = true → ∀ n, IsName n → ∀ follow,
      t'.resolve cwd follow (extend p a ++ '/' :: n) = t'.walk follow k (below l a) [n] := by
  obtain ⟨k, h⟩ := h
  refine ⟨k, ?_⟩
  intro t' hsame a ha n hn follow
  have hnames : ∀ m ∈ a, '/' ∉ m := by
    rcases ha with rfl | ha
    · nofun
    · exact fun m hm => (Tree.isName_of_below (Tree.entry_ne_none ha) m hm).2.2.2.1
  unfold Tree.resolve
  rw [if_neg (by simp), start_extend, split_append, split_extend p hnames, split_name hn.2.2.2.1,
    List.append_assoc, h t' hsame follow _ (by simp)]
  rcases ha with rfl | ha
  · rfl
  · exact Tree.walk_below ha

variable (h : Denotes t cwd s d p l) (hsame : SameBut s d t t')

include h hsame

theorem absent (hdir : t'.isDir (below l a) = true) (hn : IsName n)
    (hnone : t'.entry (below l (a ++ [n])) = none) :
    t'.resolve cwd follow (extend p (a ++ [n])) = .absent (below l a) n := by
  rw [below_append] at hnone
  obtain ⟨k, hk⟩ := h.resolve
  rw [extend_append, extend_cons, extend_nil, hk t' hsame a (.inr hdir) n hn]
  exact Tree.walk_absent follow k hdir hn hnone

theorem entry {e : Entry} (hentry : t'.entry (below l (a ++ [n])) = some e)
    (hlnk : follow = false ∨ ∀ target, e ≠ .lnk target) :
    t'.resolve cwd follow (extend p (a ++ [n])) = .entry (below l (a ++ [n])) := by
  rw [below_append] at hentry
  have hne : t'.entry (n :: below l a) ≠ none := by
    rw [show t'.entry (n :: below l a) = some e from hentry]
    nofun
  obtain ⟨k, hk⟩ := h.resolve
  rw [extend_append, extend_cons, extend_nil, below_append,
    hk t' hsame a (.inr (Tree.isDir_of_entry hne)) n (t'.names _ _ hne)]
  exact Tree.walk_entry follow k hentry hlnk

/-- Where there is no directory, nothing is found. -/
theorem fail (hl : t'.isDir l = false) (hn : IsName n) :
    t'.resolve cwd follow (extend p [n]) = .fail := by
  obtain ⟨k, hk⟩ := h.resolve
  rw [extend_cons, extend_nil]
  refine (hk t' hsame [] (.inl rfl) n hn follow).trans ?_
  exact Tree.walk_fail follow k hl []

end Denotes

/-! ## Plain paths -/

/-- The names on the way from the root, each after a slash. -/
def realPath (l : Loc) : Text := extend [] l.reverse

theorem realPath_cons : realPath (n :: l) = realPath l ++ '/' :: n := by
  rw [realPath, List.reverse_cons, extend_append]
  rfl

theorem start_realPath (cwd l : Loc) (q : Text) : start cwd (realPath l ++ '/' :: q) = [] :=
  (start_extend cwd [] q l.reverse).trans rfl

/-- The walk along a plain path passes through the directory. -/
theorem walk_realPath (h : t.isDir l = true) (q : List Text) :
    t.walk follow 40 [] (split (realPath l) ++ q) = t.walk follow 40 l q := by
  have hdir : t.isDir (below [] l.reverse) = true := by rwa [below_reverse]
  have hnames : ∀ m ∈ l.reverse, '/' ∉ m := fun m hm =>
    (Tree.isName_of_below (Tree.entry_ne_none hdir) m hm).2.2.2.1
  have hroot : t.isDir [] = true := by
    cases hrev : l.reverse with
    | nil => rwa [hrev] at hdir
    | cons m a => exact Tree.isDir_of_below (hrev ▸ Tree.entry_ne_none hdir)
  obtain ⟨jump, hjump⟩ := Tree.exists_walk t follow 40
  -- in front of the first slash there is an empty part
  have hskip : t.walk follow 40 [] (split [] ++ l.reverse ++ q) =
      t.walk follow 40 [] (l.reverse ++ q) := by
    rw [hjump, split, List.cons_append, List.cons_append, List.nil_append, Tree.walkFrom,
      if_neg (by rw [hroot]; nofun), if_pos (.inl rfl)]
  rw [realPath, split_extend [] hnames, hskip, Tree.walk_below hdir, below_reverse]

/-- A directory inside neither place is denoted by its plain path. -/
theorem denotes_realPath (h : t.isDir l = true) (hs : ¬ Inside s l) (hd : ¬ Inside d l) :
    Denotes t cwd s d (realPath l) l := by
  refine ⟨40, ?_⟩
  intro t' hsame follow q _
  rw [start_realPath]
  exact walk_realPath ((Tree.isDir_congr (hsame l hs hd)).trans h) q

/-- So is a place in such a directory where there is nothing, as long as it is empty. -/
theorem denotes_realPath_absent (h : t.isDir l = true) (hn : IsName n)
    (hnone : t.entry (n :: l) = none) (hs : ¬ Inside s (n :: l)) (hd : ¬ Inside d (n :: l))
    (hs' : ¬ Inside s l) (hd' : ¬ Inside d l) :
    Denotes t cwd s d (realPath (n :: l)) (n :: l) := by
  have hdenotes : Denotes t cwd s d (realPath l) l := denotes_realPath h hs' hd'
  obtain ⟨k, hk⟩ := hdenotes
  refine ⟨k, ?_⟩
  intro t' hsame follow q hq
  have hdir : t'.isDir l = true := (Tree.isDir_congr (hsame l hs' hd')).trans h
  have hnone' : t'.entry (n :: l) = none := (hsame _ hs hd).trans hnone
  rw [realPath_cons, List.append_assoc, List.cons_append, start_append, split_append,
    split_name hn.2.2.2.1, List.append_assoc, hk t' hsame follow _ (by simp), List.singleton_append]
  obtain ⟨m, q, rfl⟩ := List.exists_cons_of_ne_nil hq
  have hdir' : t'.isDir (n :: l) = false := Tree.isDir_of_none hnone'
  obtain ⟨jump, hjump⟩ := Tree.exists_walk t' follow k
  rw [Tree.walk_fail follow k hdir', hjump, Tree.walkFrom_name jump follow hdir hn, hnone']
  rfl

end Files
