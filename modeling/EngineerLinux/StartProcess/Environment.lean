import EngineerLinux.StartProcess.Scan

/-!
# What the environment can do to a command

The words of the command have a structure of their own: a scan of the text as it stands says which
are operators, targets and arguments. The child scans the expanded words instead (`main.c` 105-132),
and passes over those whose variable is not set.

The two scans are compared word by word. As long as the decisions follow the text, the flag
`redirection` is the same in both (`flag_of_follows`), and the first word where they part has a
variable that is not harmless in its place. For the spellings the scan up to the word is that of
any text in front of it, so it is enough to look at one turn and at what comes behind.

- `environment_keeps_structure_iff`: **the environment changes no word's part** in the command
  exactly if every target that is a variable is set, and no argument that is one has the value `>`;
- `variable_spelling_iff`: **`$NAME` is replaced by the value of `NAME`**, and `${NAME}` by that of
  `{NAME}`.
-/

namespace EngineerLinux.StartProcess

open Redirect

variable {getenv : Text → Option Text} {elem w : Text} {elems : List Text} {redirection : Bool}
  {r : Role}

/-! ## The structure of a command -/

/-- A word that is looked up in the environment. -/
def IsReference (elem : Text) : Prop := charAt elem 0 = '$' ∧ 2 ≤ elem.length

instance (elem : Text) : Decidable (IsReference elem) := inferInstanceAs (Decidable (_ ∧ _))

/-- A decision on a word is what the word's part in the text asks for: an operator acts as one; a
target, expanded, is where output goes; an argument is passed on, or is an unset variable. -/
def Follows (getenv : Text → Option Text) (elem : Text) (d : Decision) : Role → Prop
  | .operator => d = .operator
  | .target => ∃ path, expand getenv elem = some path ∧ d = .redirect path
  | .argument => d = .skip ∨ ∃ arg, d = .keep arg

/-- The parts the words of a command have in its text, and what the child does with them, agree. -/
def KeepsStructure (getenv : Text → Option Text) (redirection : Bool) (elems : List Text) : Prop :=
  ∀ x ∈ elems.zip ((decisions getenv redirection elems).zip (roles isOperator redirection elems)),
    Follows getenv x.1 x.2.1 x.2.2

/-- A variable with a value its part in the text allows. -/
def Harmless (getenv : Text → Option Text) (elem : Text) : Role → Prop
  | .operator => True
  | .target => IsReference elem → getenv (envName elem) ≠ none
  | .argument => IsReference elem → getenv (envName elem) ≠ some ['>']

theorem expand_of_reference (h : IsReference elem) :
    expand getenv elem = getenv (envName elem) := if_pos h

theorem expand_of_not_reference (h : ¬ IsReference elem) : expand getenv elem = some elem :=
  if_neg h

/-- `>` is not a variable. -/
theorem isOperator_of_reference (h : IsReference elem) : isOperator elem = false := by
  refine decide_eq_false ?_
  rintro rfl
  exact absurd h (by decide)

/-- A decision that follows the text leaves the flag as the text does. -/
theorem flag_of_follows {d : Decision} (h : Follows getenv elem d (role isOperator redirection w)) :
    d.flag redirection = (role isOperator redirection w).pending := by
  cases hrole : role isOperator redirection w with
  | operator =>
    rw [hrole] at h
    obtain rfl : d = .operator := h
    rfl
  | target =>
    rw [hrole] at h
    obtain ⟨path, -, rfl⟩ := h
    rfl
  | argument =>
    rw [hrole] at h
    have hflag := pending_of_argument hrole
    rcases h with rfl | ⟨arg, rfl⟩
    · exact hflag
    · exact hflag

/-- A word that is no variable is decided on by its text. -/
theorem follows_of_not_reference (h : ¬ IsReference elem) :
    Follows getenv elem (iteration getenv redirection elem) (role isOperator redirection elem) := by
  have hexpand : expand getenv elem = some elem := expand_of_not_reference h
  rw [iteration_eq hexpand]
  cases role isOperator redirection elem with
  | operator => rfl
  | target => exact ⟨elem, hexpand, rfl⟩
  | argument => exact .inr ⟨elem, rfl⟩

/-- **One word**: the decision follows the text exactly if the variable is harmless. -/
theorem follows_iff (getenv : Text → Option Text) (redirection : Bool) (elem : Text) :
    Follows getenv elem (iteration getenv redirection elem) (role isOperator redirection elem) ↔
      Harmless getenv elem (role isOperator redirection elem) := by
  -- only a variable can be replaced or passed over, so a word as it stands follows its part
  by_cases href : IsReference elem
  · have hexpand : expand getenv elem = getenv (envName elem) := expand_of_reference href
    cases redirection with
    | true =>
      show (∃ path, _ ∧ _) ↔ (_ → _)
      rw [hexpand, forall_prop_of_true href]
      cases hvalue : getenv (envName elem) with
      -- an unset target is passed over, and the operator goes on waiting
      | none => exact iff_of_false (fun ⟨_, h, _⟩ => Option.some_ne_none _ h.symm) fun h => h rfl
      | some v =>
        exact iff_of_true ⟨v, rfl, iteration_eq (hexpand.trans hvalue)⟩ (Option.some_ne_none v)
    | false =>
      rw [role_false_of_not_op (isOperator_of_reference href)]
      show (_ ∨ _) ↔ (_ → _)
      rw [forall_prop_of_true href]
      cases hvalue : getenv (envName elem) with
      | none =>
        exact iff_of_true (.inl (iteration_skip (hexpand.trans hvalue)))
          (Option.some_ne_none _).symm
      | some v =>
        rw [iteration_eq (hexpand.trans hvalue)]
        -- a value `>` is an operator, since the test for it comes after the expansion
        by_cases hop : v = ['>']
        · have hisOp : isOperator v = true := decide_eq_true hop
          rw [role_false_of_op hisOp, hop]
          exact iff_of_false (by rintro (h | ⟨_, h⟩) <;> cases h) fun h => h rfl
        · have hisOp : isOperator v = false := decide_eq_false hop
          rw [role_false_of_not_op hisOp]
          exact iff_of_true (.inr ⟨v, rfl⟩) fun h => hop (Option.some.inj h)
  · refine iff_of_true (follows_of_not_reference href) ?_
    cases role isOperator redirection elem with
    | operator => trivial
    | target | argument => exact fun h => absurd h href

/-- **All words**: by induction, the flag being the same in both scans as long as the decisions
follow the text. -/
theorem keepsStructure_iff (getenv : Text → Option Text) (redirection : Bool)
    (elems : List Text) :
    KeepsStructure getenv redirection elems ↔
      ∀ x ∈ elems.zip (roles isOperator redirection elems), Harmless getenv x.1 x.2 := by
  induction elems generalizing redirection with
  | nil => exact iff_of_true nofun nofun
  | cons elem elems ih =>
    unfold KeepsStructure
    rw [decisions, roles, List.zip_cons_cons, List.zip_cons_cons, List.zip_cons_cons,
      List.forall_mem_cons, List.forall_mem_cons, follows_iff]
    -- the first decision follows the text, so both scans go on with the same flag
    refine and_congr_right fun hharmless => ?_
    rw [flag_of_follows ((follows_iff getenv redirection elem).mpr hharmless)]
    exact ih _

/-- **The environment and the structure of a command**: the child does with the words of a command
what their parts in its text ask for, exactly if every target that is a variable is set, and no
argument that is a variable has the value `>`. -/
theorem environment_keeps_structure_iff (copy : Copy) (getenv : Text → Option Text)
    (command elem₀ : Text) (elems : List Text) (hsplit : Splits command (elem₀ :: elems))
    (hfit : (kept getenv false elems).length ≤ PROCESS_MAX_PARAMS) :
    Performs copy getenv command elem₀ (decisions getenv false elems) ∧
      (KeepsStructure getenv false elems ↔
        ∀ x ∈ elems.zip (roles isOperator false elems), Harmless getenv x.1 x.2) :=
  ⟨performs_decisions copy hsplit hfit, keepsStructure_iff getenv false elems⟩

/-- `a > $X` with a variable that is set. -/
theorem environment_keeps_structure_iff_target :
    KeepsStructure (fun _ => some ['o']) false [['>'], ['$', 'X']] := by
  refine (environment_keeps_structure_iff .startProcess (fun _ => some ['o'])
    ['a', ' ', '>', ' ', '$', 'X'] ['a'] [['>'], ['$', 'X']] (splits_words (by decide))
    (by decide)).2.mpr ?_
  intro x hx
  rcases List.mem_cons.mp hx with rfl | hx
  · trivial
  · rw [List.mem_singleton.mp hx]
    exact fun _ => Option.some_ne_none _

/-- `a > $X b`. -/
def aToXB : Text := ['a', ' ', '>', ' ', '$', 'X', ' ', 'b']

/-- **A later argument becomes a target**: in `a > $X b`, without the variable, the child opens `b`
as standard output and passes nothing on. -/
theorem unset_target_changes_structure :
    Splits aToXB [['a'], ['>'], ['$', 'X'], ['b']] ∧
    (∃ fuel, createProcessEx .startProcess (fun _ => none) fuel aToXB =
      some (redirectAll ((prepare .startProcess).bind fun _ => .ret (.execvp ['a'] [['a']]))
        [['b']])) ∧
    ¬ KeepsStructure (fun _ => none) false [['>'], ['$', 'X'], ['b']] := by
  have hsplit : Splits aToXB [['a'], ['>'], ['$', 'X'], ['b']] := splits_words (by decide)
  refine ⟨hsplit, performs_decisions .startProcess hsplit (by decide), fun h => ?_⟩
  have htarget := h (['$', 'X'], .skip, .target) (by decide)
  obtain ⟨path, -, hskip⟩ := htarget
  cases hskip

/-! ## The spellings of a variable -/

/-- `$NAME`. -/
def dollar (name : Text) : Text := '$' :: name

/-- `{NAME}`. -/
def braced (name : Text) : Text := '{' :: name ++ ['}']

/-- Letters, digits and underscores. -/
def IsName (name : Text) : Prop := name ≠ [] ∧ ∀ c ∈ name, c.isAlphanum = true ∨ c = '_'

/-- `redirection`, behind these words. -/
def flagAfter (getenv : Text → Option Text) (redirection : Bool) (elems : List Text) : Bool :=
  elems.foldl (fun f elem => (iteration getenv f elem).flag f) redirection

theorem decisions_append (getenv : Text → Option Text) (redirection : Bool)
    (pre post : List Text) :
    decisions getenv redirection (pre ++ post) =
      decisions getenv redirection pre ++
        decisions getenv (flagAfter getenv redirection pre) post := by
  induction pre generalizing redirection with
  | nil => rfl
  | cons elem pre ih =>
    rw [List.cons_append, decisions, decisions, ih]
    rfl

/-- There is no brace in a name. -/
theorem IsName.charAt_ne {name : Text} (h : IsName name) (i : Nat) : charAt name i ≠ '{' := by
  unfold charAt
  cases hc : name[i]? with
  | none => decide
  | some c =>
    rintro rfl
    rcases h.2 _ (List.mem_of_getElem? hc) with h | h
    · exact absurd h (by decide)
    · exact absurd h (by decide)

/-- **`$NAME`** is looked up as `NAME`. -/
theorem envName_dollar {name : Text} (h : IsName name) : envName (dollar name) = name :=
  if_neg fun hbrace => h.charAt_ne 1 hbrace.1

/-- **`${NAME}`** is looked up as `{NAME}`: the brace is looked for at index 1, when the `$` before
it has already been taken away. -/
theorem envName_dollar_braced {name : Text} (h : IsName name) :
    envName (dollar (braced name)) = braced name := by
  refine if_neg fun hbrace => ?_
  -- without the `$`, the character at index 1 is the first of the name
  obtain ⟨c, rest, rfl⟩ := List.exists_cons_of_ne_nil h.1
  exact h.charAt_ne 0 hbrace.1

theorem expand_dollar {name : Text} (h : IsName name) :
    expand getenv (dollar name) = getenv name := by
  have href : IsReference (dollar name) :=
    ⟨rfl, Nat.succ_le_succ (List.length_pos_of_ne_nil h.1)⟩
  rw [expand_of_reference href, envName_dollar h]

theorem expand_dollar_braced {name : Text} (h : IsName name) :
    expand getenv (dollar (braced name)) = getenv (braced name) := by
  have href : IsReference (dollar (braced name)) :=
    ⟨rfl, Nat.succ_le_succ (Nat.succ_pos _)⟩
  rw [expand_of_reference href, envName_dollar_braced h]

/-- What is to become of an argument that is replaced by this value, if there is one. -/
def passed : Option Text → Decision
  | some v => .keep v
  | none => .skip

/-- A word that is no target, and is replaced by a value that is no operator. -/
theorem iteration_of_expand {value : Option Text} (h : expand getenv elem = value)
    (hop : value ≠ some ['>']) : iteration getenv false elem = passed value := by
  cases value with
  | none => exact iteration_skip h
  | some v =>
    have hisOp : isOperator v = false := decide_eq_false fun heq => hop (congrArg some heq)
    rw [iteration_eq h, role_false_of_not_op hisOp]
    rfl

/-- A word is passed on as a value exactly if it is replaced by it. -/
theorem iteration_eq_passed_iff {value : Option Text} (hop : value ≠ some ['>']) :
    iteration getenv false elem = passed value ↔ expand getenv elem = value := by
  refine ⟨fun h => ?_, fun h => iteration_of_expand h hop⟩
  cases hexpand : expand getenv elem with
  | none =>
    rw [iteration_skip hexpand] at h
    cases value with
    | none => rfl
    | some v => cases h
  | some v =>
    rw [iteration_eq hexpand] at h
    cases hv : isOperator v with
    | true =>
      rw [role_false_of_op hv] at h
      cases value <;> cases h
    | false =>
      rw [role_false_of_not_op hv] at h
      cases value with
      | none => cases h
      | some v' => rw [Decision.keep.inj h]

/-- The word behind `pre` is passed on as a value, or not at all. -/
def PassedOn (getenv : Text → Option Text) (value : Option Text) (pre : List Text) (w : Text)
    (post : List Text) : Prop :=
  decisions getenv false (pre ++ w :: post) =
    decisions getenv false pre ++ passed value :: decisions getenv false post

theorem passedOn_iff {value : Option Text} {pre post : List Text}
    (hflag : flagAfter getenv false pre = false) (hop : value ≠ some ['>']) :
    PassedOn getenv value pre w post ↔ expand getenv w = value := by
  unfold PassedOn
  -- the words in front are decided on alike, so all depends on this one and the flag behind it
  rw [decisions_append, hflag, decisions, List.append_cancel_left_eq, List.cons.injEq,
    iteration_eq_passed_iff hop]
  refine and_iff_left_of_imp fun hexpand => ?_
  rw [iteration_of_expand hexpand hop]
  cases value <;> rfl

/-- Words that are replaced by the same value are decided on alike, wherever they stand. -/
theorem decisions_congr {w w' : Text} (h : expand getenv w = expand getenv w')
    (pre post : List Text) :
    decisions getenv false (pre ++ w :: post) = decisions getenv false (pre ++ w' :: post) := by
  have hiter : ∀ f, iteration getenv f w = iteration getenv f w' := by
    intro f
    unfold iteration
    rw [h]
  rw [decisions_append, decisions_append, decisions, decisions, hiter]

/-- **Exchanging the spellings** changes the arguments of no command exactly if both names have the
same value. -/
theorem kept_spelling_iff {name : Text} (hname : IsName name) (hop : getenv name ≠ some ['>']) :
    (∀ pre post, kept getenv false (pre ++ dollar name :: post) =
        kept getenv false (pre ++ dollar (braced name) :: post)) ↔
      getenv (braced name) = getenv name := by
  have hdollar : iteration getenv false (dollar name) = passed (getenv name) :=
    iteration_of_expand (expand_dollar hname) hop
  constructor
  · intro h
    by_cases hop' : getenv (braced name) = some ['>']
    · -- the braces make it an operator, and the next word its target
      have hbraced : iteration getenv false (dollar (braced name)) = .operator :=
        iteration_eq ((expand_dollar_braced hname).trans hop')
      have hkept := h [] [['a']]
      rw [List.nil_append, List.nil_append, kept_cons hdollar, kept_cons hbraced] at hkept
      cases hv : getenv name with
      | none =>
        rw [hv] at hkept
        exact absurd hkept (List.cons_ne_nil _ _)
      | some v =>
        rw [hv] at hkept
        exact absurd hkept (List.cons_ne_nil _ _)
    · have hbraced :
          iteration getenv false (dollar (braced name)) = passed (getenv (braced name)) :=
        iteration_of_expand (expand_dollar_braced hname) hop'
      have hkept := h [] []
      rw [List.nil_append, List.nil_append, kept_cons hdollar, kept_cons hbraced] at hkept
      cases hv : getenv name with
      | none =>
        cases hv' : getenv (braced name) with
        | none => rfl
        | some v' =>
          rw [hv, hv'] at hkept
          cases hkept
      | some v =>
        cases hv' : getenv (braced name) with
        | none =>
          rw [hv, hv'] at hkept
          cases hkept
        | some v' =>
          rw [hv, hv'] at hkept
          exact congrArg some (List.cons.inj hkept).1.symm
  · intro h pre post
    have hexpand : expand getenv (dollar name) = expand getenv (dollar (braced name)) := by
      rw [expand_dollar hname, expand_dollar_braced hname, h]
    rw [kept, decisions_congr hexpand]
    rfl

/-- **The spellings of a variable**: a word `$NAME` or `${NAME}` that is no target, where `NAME` is
not `>`, is passed on as the value of `NAME`, or not at all if there is none, exactly if it has no
braces or `{NAME}` has the same value as `NAME`. -/
theorem variable_spelling_iff (copy : Copy) (getenv : Text → Option Text) (name : Text)
    (hname : IsName name) (hop : getenv name ≠ some ['>']) (command elem₀ w : Text)
    (pre post : List Text) (hw : w = dollar name ∨ w = dollar (braced name))
    (hsplit : Splits command (elem₀ :: (pre ++ w :: post)))
    (hfit : (kept getenv false (pre ++ w :: post)).length ≤ PROCESS_MAX_PARAMS)
    (hflag : flagAfter getenv false pre = false) :
    Performs copy getenv command elem₀ (decisions getenv false (pre ++ w :: post)) ∧
      (PassedOn getenv (getenv name) pre w post ↔
        w = dollar name ∨ getenv (braced name) = getenv name) ∧
      ((∀ pre post, kept getenv false (pre ++ dollar name :: post) =
          kept getenv false (pre ++ dollar (braced name) :: post)) ↔
        getenv (braced name) = getenv name) := by
  refine ⟨performs_decisions copy hsplit hfit, ?_, kept_spelling_iff hname hop⟩
  rw [passedOn_iff hflag hop]
  rcases hw with rfl | rfl
  · exact iff_of_true (expand_dollar hname) (.inl rfl)
  · rw [expand_dollar_braced hname]
    refine (or_iff_right fun heq => ?_).symm
    -- the two spellings differ in length
    have hlen := congrArg List.length (List.cons.inj heq).2
    rw [braced, List.length_append, List.length_cons, List.length_singleton] at hlen
    omega

/-- An environment with the variable `HOME`. -/
def homeEnv (name : Text) : Option Text :=
  if name = ['H', 'O', 'M', 'E'] then some ['/'] else none

theorem isName_home : IsName ['H', 'O', 'M', 'E'] := by
  have hletters : ['H', 'O', 'M', 'E'].all Char.isAlphanum = true := by decide
  exact ⟨List.cons_ne_nil _ _, fun c hc => .inl (List.all_eq_true.mp hletters c hc)⟩

/-- `a $HOME`. -/
theorem variable_spelling_iff_home :
    PassedOn homeEnv (some ['/']) [] ['$', 'H', 'O', 'M', 'E'] [] :=
  (variable_spelling_iff .startProcess homeEnv ['H', 'O', 'M', 'E'] isName_home (by decide)
    ['a', ' ', '$', 'H', 'O', 'M', 'E'] ['a'] ['$', 'H', 'O', 'M', 'E'] [] [] (.inl rfl)
    (splits_words (by decide)) (by decide) rfl).2.1.mpr (.inl rfl)

/-- **The spelling with braces is not expanded**: `a ${HOME}` passes nothing. -/
theorem braces_not_expanded :
    homeEnv ['H', 'O', 'M', 'E'] = some ['/'] ∧
    kept homeEnv false [dollar (braced ['H', 'O', 'M', 'E'])] = [] ∧
    ¬ PassedOn homeEnv (some ['/']) [] (dollar (braced ['H', 'O', 'M', 'E'])) [] :=
  ⟨by decide, by decide, by unfold PassedOn; decide⟩

end EngineerLinux.StartProcess
