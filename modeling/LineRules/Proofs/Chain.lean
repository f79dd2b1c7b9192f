import LineRules.Proofs.PassThrough
import LineRules.Proofs.Pattern.Formula

/-!
Chains of actions, put together two by two. On each line the patterns are asked in order up to the
first that matches, and the action that it belongs to makes the output; lines that all patterns miss
are left to the last action. The tags that the patterns put on a report are the turns that the
handlers take, so a report comes to the handler of its own action, without the tags.
-/
namespace LineRules.Action

def chain : List Action → Action
  | [] => ⟨.never, .print⟩
  | [a] => a
  | a :: b :: rest => eitherOr a (chain (b :: rest))

/-- What an action makes of a line even if its pattern misses it. -/
def handle (a : Action) (state : RunState) (line : Option Line) : Applied :=
  let seen := a.pattern.evaluate line
  let made := a.handler.invoke state line seen.report
  ⟨some made.1, ⟨seen.next, made.2⟩, seen.calls⟩

def passed (a : Action) (line : Option Line) : Action :=
  ⟨(a.pattern.evaluate line).next, a.handler⟩

/-- The place of the first action whose pattern matches, or else the last place. -/
def taker (line : Option Line) (actions : List Action) : Nat :=
  min (actions.findIdx fun a => a.pattern.hits line) (actions.length - 1)

/-- The actions after a line: those before the one that takes it have looked at it, the one that
takes it has handled it, and those behind have not seen it. -/
def stepped (state : RunState) (line : Option Line) (actions : List Action) : List Action :=
  let k := taker line actions
  actions.mapIdx fun j a =>
    if j < k then a.passed line else if j = k then (a.handle state line).next else a

def steppedAll (steps : List (RunState × Option Line)) (actions : List Action) : List Action :=
  steps.foldl (fun actions step => stepped step.1 step.2 actions) actions

section Pair

variable {a b : Action} {state : RunState} {line : Option Line}

theorem apply_eitherOr : (eitherOr a b).apply state line = (eitherOr a b).handle state line := by
  simp only [apply, handle, eitherOr, Pattern.evaluate]
  split <;> rfl

theorem handle_eitherOr_hit (hit : a.pattern.hits line = true) :
    (eitherOr a b).handle state line =
      let made := a.handle state line
      ⟨made.output, eitherOr made.next b, made.calls⟩ := by
  have first : (a.pattern.evaluate line).report.isHit = true := hit
  simp only [handle, eitherOr, Pattern.evaluate, first, if_true, Handler.invoke]

theorem handle_eitherOr_miss (miss : a.pattern.hits line = false) :
    (eitherOr a b).handle state line =
      let made := b.handle state line
      ⟨made.output, eitherOr (a.passed line) made.next,
        (a.pattern.evaluate line).calls ++ made.calls⟩ := by
  have first : (a.pattern.evaluate line).report.isHit = false := miss
  simp only [handle, passed, eitherOr, Pattern.evaluate, first, Handler.invoke,
    Bool.false_eq_true, if_false]

end Pair

section Taker

variable {a b : Action} {rest : List Action} {state : RunState} {line : Option Line}

theorem taker_hit (hit : a.pattern.hits line = true) : taker line (a :: rest) = 0 := by
  simp [taker, List.findIdx_cons, hit]

theorem taker_miss (miss : a.pattern.hits line = false) :
    taker line (a :: b :: rest) = taker line (b :: rest) + 1 := by
  unfold taker
  rw [List.findIdx_cons, miss]
  simp only [cond_false, List.length_cons]
  omega

theorem stepped_hit (hit : a.pattern.hits line = true) :
    stepped state line (a :: rest) = (a.handle state line).next :: rest := by
  have behind : rest.mapIdx (fun _ b => b) = rest := by
    apply List.ext_getElem?
    intro j
    rw [List.getElem?_mapIdx, Option.map_id']
  simp [stepped, taker_hit hit, List.mapIdx_cons, behind]

theorem stepped_miss (miss : a.pattern.hits line = false) :
    stepped state line (a :: b :: rest) = a.passed line :: stepped state line (b :: rest) := by
  simp [stepped, taker_miss miss, List.mapIdx_cons]

theorem stepped_length (state : RunState) (line : Option Line) (actions : List Action) :
    (stepped state line actions).length = actions.length :=
  List.length_mapIdx

theorem stepped_get {actions : List Action} {j : Nat} (here : actions[j]? = some a) :
    let k := taker line actions
    (stepped state line actions)[j]? = some (
      if j < k then a.passed line else if j = k then (a.handle state line).next else a) := by
  rw [stepped, List.getElem?_mapIdx, here]
  rfl

end Taker

section Chain

variable {actions : List Action} {state : RunState} {line : Option Line}

theorem chain_cons (a : Action) (filled : actions ≠ []) :
    chain (a :: actions) = eitherOr a (chain actions) := by
  cases actions with
  | nil => exact absurd rfl filled
  | cons b rest => rfl

theorem apply_chain (several : 2 ≤ actions.length) :
    (chain actions).apply state line = (chain actions).handle state line := by
  match actions, several with
  | a :: b :: rest, _ =>
    rw [chain_cons a (List.cons_ne_nil b rest)]
    exact apply_eitherOr

/-- The induction is on the chain as the last resort of a longer one, which is used even if nothing in
it matches. -/
theorem handle_chain (state : RunState) (line : Option Line) (filled : actions ≠ []) :
    let k := taker line actions
    ∃ b, actions[k]? = some b ∧
      (chain actions).handle state line =
        ⟨(b.handle state line).output, chain (stepped state line actions),
          (actions.take (k + 1)).flatMap fun c => (c.pattern.evaluate line).calls⟩ := by
  induction actions with
  | nil => exact absurd rfl filled
  | cons a rest ih =>
    cases rest with
    | nil =>
      have first : taker line [a] = 0 := by simp [taker]
      refine ⟨a, by simp [first], ?_⟩
      simp [chain, stepped, first, handle]
    | cons b rest =>
      have more : b :: rest ≠ [] := List.cons_ne_nil b rest
      cases here : a.pattern.hits line with
      | true =>
        refine ⟨a, by simp [taker_hit here], ?_⟩
        rw [chain_cons a more, handle_eitherOr_hit here, taker_hit here, stepped_hit here,
          chain_cons _ more]
        simp [handle]
      | false =>
        obtain ⟨c, found, handled⟩ := ih more
        have still : stepped state line (b :: rest) ≠ [] := by
          rw [← List.length_pos_iff, stepped_length]
          exact Nat.succ_pos _
        refine ⟨c, by rw [taker_miss here, List.getElem?_cons_succ, found], ?_⟩
        rw [chain_cons a more, handle_eitherOr_miss here, handled, stepped_miss here,
          chain_cons _ still, taker_miss here]
        simp

theorem after_chain (several : 2 ≤ actions.length) (steps : List (RunState × Option Line)) :
    (chain actions).after steps = chain (steppedAll steps actions) ∧
      (steppedAll steps actions).length = actions.length := by
  induction steps generalizing actions with
  | nil => exact ⟨rfl, rfl⟩
  | cons step rest ih =>
    have length := stepped_length step.1 step.2 actions
    have filled : actions ≠ [] := List.ne_nil_of_length_pos (by omega)
    obtain ⟨taken, -, handled⟩ := handle_chain step.1 step.2 filled
    have several : 2 ≤ (stepped step.1 step.2 actions).length := length ▸ several
    obtain ⟨same, kept⟩ := ih several
    have first : ((chain actions).apply step.1 step.2).next =
        chain (stepped step.1 step.2 actions) := by
      rw [apply_chain (by omega), handled]
    constructor
    · rw [after, List.foldl_cons, first]
      exact same
    · exact kept.trans length

theorem missed_before_taker {j : Nat} {a : Action} (here : actions[j]? = some a)
    (before : j < taker line actions) : (a.pattern.evaluate line).report = .miss := by
  obtain ⟨bound, same⟩ := List.getElem?_eq_some_iff.mp here
  have missed := List.not_of_lt_findIdx (Nat.lt_of_lt_of_le before (Nat.min_le_left _ _))
  rw [same] at missed
  exact Match.eq_miss missed

theorem taker_hits_or_last {a : Action} (here : actions[taker line actions]? = some a) :
    a.pattern.hits line = true ∨ taker line actions + 1 = actions.length := by
  obtain ⟨bound, same⟩ := List.getElem?_eq_some_iff.mp here
  by_cases found : actions.findIdx (fun a => a.pattern.hits line) < actions.length
  · left
    have place : taker line actions = actions.findIdx fun a => a.pattern.hits line :=
      Nat.min_eq_left (by omega)
    simp only [place] at same
    rw [← same]
    exact List.findIdx_getElem (w := found)
  · right
    unfold taker
    omega

end Chain

/-- A chain of two or more actions makes output for every line. On a line that comes after any others,
the patterns are asked in order up to the first that matches, and the handler of the same action gets
what that pattern itself reports; if none matches, the handler of the last action gets a plain miss.
The patterns in front have seen the line and the one that matches has, too; the patterns behind it and
all other handlers are left as they are. -/
theorem chain_leaves_line_to_first_match (actions : List Action) (several : 2 ≤ actions.length)
    (steps : List (RunState × Option Line)) (state : RunState) (line : Option Line) :
    let now := steppedAll steps actions
    let after := stepped state line now
    let applied := ((chain actions).after steps).apply state line
    let k := taker line now
    (chain actions).after steps = chain now ∧ now.length = actions.length ∧
    (∀ j a, now[j]? = some a → j < k → (a.pattern.evaluate line).report = .miss) ∧
    (∃ a, now[k]? = some a ∧
      let report := (a.pattern.evaluate line).report
      applied.output = some (a.handler.invoke state line report).1 ∧
      (report.isHit = true ∨ k + 1 = now.length ∧ report = .miss)) ∧
    applied.calls = ((now.take (k + 1)).flatMap fun a => (a.pattern.evaluate line).calls) ∧
    applied.next = chain after ∧
    (∀ j a, now[j]? = some a → after[j]? = some (
      if j < k then a.passed line else if j = k then (a.handle state line).next else a)) := by
  intro now after applied k
  obtain ⟨same, length⟩ := after_chain several steps
  have more : 2 ≤ now.length := length ▸ several
  have filled : now ≠ [] := List.ne_nil_of_length_pos (Nat.lt_of_lt_of_le Nat.two_pos more)
  obtain ⟨a, found, handled⟩ := handle_chain state line filled
  have whole : applied = ⟨(a.handle state line).output, chain after,
      (now.take (k + 1)).flatMap fun a => (a.pattern.evaluate line).calls⟩ :=
    calc
      applied = (chain now).apply state line := congrArg (Action.apply · state line) same
      _ = (chain now).handle state line := apply_chain more
      _ = _ := handled
  refine ⟨same, length, fun j b => missed_before_taker, ⟨a, found, ?_, ?_⟩, ?_, ?_, ?_⟩
  · rw [whole]
    rfl
  · cases hit : a.pattern.hits line with
    | true => exact .inl hit
    | false =>
      rcases taker_hits_or_last found with taken | last
      · rw [hit] at taken
        contradiction
      · exact .inr ⟨last, Match.eq_miss hit⟩
  · rw [whole]
  · rw [whole]
  · exact fun j b => stepped_get

theorem open_range_takes_line :
    let quotes : Pattern := .test ⟨"quotes", fun line => line.startsWith "#"⟩
    let range : Bool → Pattern :=
      .range (.test ⟨"opens", fun line => line.startsWith "<"⟩) .never
    let actions : List Action :=
      [⟨quotes, .double⟩, ⟨range false, .counting⟩, ⟨.always, .counting⟩]
    let step : RunState × Option Line := (⟨0, " ", "\n"⟩, some "<")
    let next := ((chain actions).after [step]).apply ⟨1, " ", "\n"⟩ (some "a")
    2 ≤ actions.length ∧ next.output = some (.numbered "a" 0 2) ∧
      next.next = chain [⟨quotes, .double⟩, ⟨range true, .increment 2⟩, ⟨.always, .counting⟩] := by
  intro quotes range actions step next
  have several : 2 ≤ actions.length := by decide
  obtain ⟨-, -, -, ⟨a, found, output, -⟩, -, left, -⟩ :=
    chain_leaves_line_to_first_match actions several [step] ⟨1, " ", "\n"⟩ (some "a")
  obtain rfl : ⟨range true, .increment 1⟩ = a := Option.some.inj found
  exact ⟨several, output, left⟩

end LineRules.Action
