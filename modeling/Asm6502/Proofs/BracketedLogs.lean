import Asm6502.Proofs.Scaffolds

/-!
# Bracketed logs

Operations that finish every node that they open are put together from additions, from
nodes with operations inside, and from nodes that begin around the last of what is there.
By this form it is known what their log looks like and what becomes of it when it is
resolved: the calls are those of the trees that were built.
-/

namespace Asm6502
namespace Log

open Builder (Call Plan)

variable {base position stop count : Nat} {link? : Option Nat} {log left rest middle : Log}
  {kind : Kind} {kinds : List Kind} {calls more : List Call}

/-- From a position on, a link leads to the nodes of the given kinds behind `stop`,
innermost first.  What stands in front of `stop` is of no importance. -/
def Leads (position stop : Nat) (link? : Option Nat) (log left : Log) (kinds : List Kind) :
    Prop :=
  ∀ front : Log, front.length = stop →
    follow (front ++ log) position link? = some (kinds, front ++ left)

theorem leads_none (position stop : Nat) (log : Log) : Leads position stop none log log [] := by
  intro front _
  rw [follow]

theorem Leads.behind {passed : Log}
    (leads : Leads position (stop + passed.length) link? log left kinds) :
    Leads position stop link? (passed ++ log) (passed ++ left) kinds := by
  intro front lengthEq
  have followed := leads (front ++ passed) (by rw [List.length_append, lengthEq])
  rwa [List.append_assoc, List.append_assoc] at followed

theorem Leads.link (lt : position < stop) (real : kind ≠ .tombstone)
    (leads : Leads stop (stop + 1) link? log left kinds) :
    Leads position stop (some (stop - position)) (.start kind link? :: log)
      (.tombstone :: left) (kind :: kinds) := by
  rintro front rfl
  obtain ⟨distance, gap⟩ : ∃ distance, front.length - position = distance + 1 :=
    ⟨front.length - position - 1, by omega⟩
  have next : position + (distance + 1) = front.length := by omega
  have further := leads (front ++ [.tombstone]) (by simp)
  rw [List.append_assoc, List.append_assoc, List.singleton_append, List.singleton_append]
    at further
  rw [gap, follow]
  simp [next, further, real]

/-- A log whose first events have been visited. -/
def visited (base : Nat) (log : Log) (calls : List Call) (freshTokens : Nat) : Resolution :=
  ⟨List.replicate base .tombstone ++ log, calls, freshTokens⟩

/-- Behind the first `base` events, visiting some more of them leaves another rest and
makes some calls. -/
def Emits (base count : Nat) (log left : Log) (calls : List Call) : Prop :=
  ∀ earlier freshTokens,
    (List.range' base count).foldlM Resolution.visit (visited base log earlier freshTokens) =
      some (visited (base + count) left (earlier ++ calls)
        (freshTokens + calls.countP Call.isToken))

theorem emits_zero (base : Nat) (log : Log) : Emits base 0 log log [] := by
  intro earlier freshTokens
  simp

theorem Emits.trans {further : Nat} (first : Emits base count log middle calls)
    (second : Emits (base + count) further middle left more) :
    Emits base (count + further) log left (calls ++ more) := by
  intro earlier freshTokens
  rw [← List.range'_append_1, List.foldlM_append, first]
  refine (second _ _).trans ?_
  rw [List.append_assoc, List.countP_append, Nat.add_assoc, Nat.add_assoc]

theorem Emits.of_eq {sum : Nat} {whole : List Call} (emits : Emits base count log left calls)
    (sameCount : count = sum) (sameCalls : calls = whole) : Emits base sum log left whole := by
  rwa [← sameCount, ← sameCalls]

theorem visited_succ (base : Nat) (log : Log) (calls : List Call) (freshTokens : Nat) :
    visited (base + 1) log calls freshTokens =
      visited base (.tombstone :: log) calls freshTokens := by
  simp [visited, List.replicate_succ']

theorem emits_one {event : Event}
    (visits : ∀ earlier freshTokens,
      (visited base (event :: log) earlier freshTokens).visit base =
        some (visited base (.tombstone :: left) (earlier ++ calls)
          (freshTokens + calls.countP Call.isToken))) :
    Emits base 1 (event :: log) left calls := by
  intro earlier freshTokens
  rw [List.range'_one, List.foldlM_cons, visits, visited_succ]
  rfl

theorem set_visited (base : Nat) (event : Event) (log : Log) :
    (List.replicate base Event.tombstone ++ event :: log).set base .tombstone =
      List.replicate base .tombstone ++ .tombstone :: log := by
  simp

theorem getElem?_visited (base : Nat) (event : Event) (log : Log) :
    (List.replicate base Event.tombstone ++ event :: log)[base]? = some event := by
  simp

theorem emits_tombstone (base : Nat) (log : Log) :
    Emits base 1 (.tombstone :: log) log [] := by
  refine emits_one fun earlier freshTokens => ?_
  simp only [Resolution.visit, visited, getElem?_visited, set_visited]
  simp [Event.tombstone]

theorem emits_start (real : kind ≠ .tombstone)
    (leads : Leads base (base + 1) link? log left kinds) :
    Emits base 1 (.start kind link? :: log) left ((kind :: kinds).reverse.map .start) := by
  refine emits_one fun earlier freshTokens => ?_
  have followed := leads (List.replicate (base + 1) .tombstone) (List.length_replicate ..)
  rw [List.replicate_succ', List.append_assoc, List.append_assoc, List.singleton_append,
    List.singleton_append] at followed
  have fresh : ((kind :: kinds).reverse.map Call.start).countP Call.isToken = 0 := by
    simp [Call.isToken]
  simp only [Resolution.visit, visited, getElem?_visited, set_visited, if_neg real, followed,
    fresh]
  rfl

theorem emits_finish (base : Nat) (log : Log) :
    Emits base 1 (.finish :: log) log [.finish] := by
  refine emits_one fun earlier freshTokens => ?_
  simp only [Resolution.visit, visited, getElem?_visited, set_visited]
  rfl

theorem emits_leaf (base : Nat) (tree : Tree) (log : Log) :
    Emits base 1 (.adding tree :: log) log [.adding tree] := by
  refine emits_one fun earlier freshTokens => ?_
  cases tree with
  | token kind length =>
      simp only [Event.adding, Resolution.visit, visited, getElem?_visited, set_visited]
      rfl
  | node kind children =>
      simp only [Event.adding, Resolution.visit, visited, getElem?_visited, set_visited]
      rfl

/-- Operations from a position on that finish every node they open, with what they build,
latest first. -/
inductive Assembles : (base : Nat) → List Operation → List Plan → Prop
  | nil {base : Nat} : Assembles base [] []
  | add {base : Nat} {before : List Operation} {earlier : List Plan} {tree : Tree} :
      Assembles base before earlier →
        Assembles base (before ++ [.add tree]) (.leaf (base + before.length) tree :: earlier)
  | node {base : Nat} {before inner : List Operation} {earlier children : List Plan}
      {kind : Kind} :
      Assembles base before earlier → Assembles (base + before.length + 1) inner children →
        kind ≠ .tombstone →
          Assembles base (before ++ .start :: (inner ++ [.complete (base + before.length) kind]))
            (.node (base + before.length) kind children.reverse :: earlier)
  | around {base call : Nat} {before inner : List Operation} {firstKind kind : Kind}
      {parts earlier children : List Plan} :
      Assembles base before (.node call firstKind parts :: earlier) →
        Assembles (base + before.length + 1) inner children → kind ≠ .tombstone →
          Assembles base
            (before ++ .precede call :: (inner ++ [.complete (base + before.length) kind]))
            (.node (base + before.length) kind (.node call firstKind parts :: children.reverse) ::
              earlier)

/-- What the operations from a position on add to a log, and what comes of it. -/
structure Logged (base : Nat) (operations : List Operation) (plans : List Plan) (log : Log) :
    Prop where
  length : log.length = operations.length
  recorded : ∀ front : Log, front.length = base →
    performAll operations front = some (front ++ log)
  emits : ∀ rest, Emits base log.length (log ++ rest) rest (Plan.callsOfAll plans.reverse)

/-- The start of the node that was finished last has no link, and whatever nodes it is
linked to are started around it. -/
structure Linkable (base : Nat) (before behind : Log) (kind : Kind) (children : List Plan)
    (earlier : List Plan) : Prop where
  emits : ∀ link? rest left kinds,
    Leads (base + before.length) (base + before.length + 1 + behind.length) link? rest left
      kinds →
    Emits base (before.length + 1 + behind.length)
      (before ++ .start kind link? :: (behind ++ rest)) left
      (Plan.callsOfAll earlier.reverse ++ kinds.reverse.map .start ++
        Plan.calls (.node (base + before.length) kind children))

variable {operations inner : List Operation} {plans children earlier : List Plan}
  {before behind innerLog : Log}

theorem Linkable.logged (linkable : Linkable base before behind kind children earlier)
    (length : (before ++ .start kind none :: behind).length = operations.length)
    (recorded : ∀ front : Log, front.length = base →
      performAll operations front = some (front ++ (before ++ .start kind none :: behind))) :
    Logged base operations (.node (base + before.length) kind children :: earlier)
      (before ++ .start kind none :: behind) where
  length := length
  recorded := recorded
  emits rest := by
    rw [List.append_assoc, List.cons_append]
    refine (linkable.emits none rest rest [] (leads_none _ _ rest)).of_eq ?_ ?_
    · simp only [List.length_append, List.length_cons]
      omega
    · rw [List.reverse_nil, List.map_nil, List.append_nil, Plan.callsOfAll_reverse_cons]

theorem Logged.add (logged : Logged base operations plans log) (tree : Tree) :
    Logged base (operations ++ [.add tree]) (.leaf (base + operations.length) tree :: plans)
      (log ++ [.adding tree]) where
  length := by simp [logged.length]
  recorded front lengthEq := by
    rw [performAll_append, logged.recorded front lengthEq, Option.bind_some,
      performAll_singleton, perform, List.append_assoc]
  emits rest := by
    have emitted := (logged.emits (.adding tree :: rest)).trans (emits_leaf _ tree rest)
    rw [Plan.callsOfAll_reverse_cons, List.length_append, List.append_assoc]
    exact emitted

/-- What is taken down inside of a node, from its start to its end. -/
theorem Logged.recorded_closed {front : Log}
    (logged : Logged (front.length + 1) inner children innerLog) (kind : Kind) :
    performAll (inner ++ [.complete front.length kind]) (front ++ [.tombstone]) =
      some (front ++ .start kind none :: (innerLog ++ [.finish])) := by
  have taken := logged.recorded (front ++ [.tombstone]) (by simp)
  rw [performAll_append, taken, Option.bind_some, performAll_singleton, perform]
  simp [Event.tombstone]

theorem Logged.emits_closed (logged : Logged base inner children innerLog) (rest : Log) :
    Emits base (innerLog.length + 1) (innerLog ++ [.finish] ++ rest) rest
      (Plan.callsOfAll children.reverse ++ [.finish]) := by
  rw [List.append_assoc]
  exact (logged.emits _).trans (emits_finish _ rest)

theorem Logged.linkable_node (logged : Logged base operations earlier log)
    (closed : Logged (base + log.length + 1) inner children innerLog) (real : kind ≠ .tombstone) :
    Linkable base log (innerLog ++ [.finish]) kind children.reverse earlier where
  emits link? rest left kinds leads := by
    have opened := (logged.emits (.start kind link? :: (innerLog ++ [.finish] ++ rest))).trans
      (emits_start real leads.behind)
    refine (opened.trans (closed.emits_closed left)).of_eq ?_ ?_
    · simp only [List.length_append, List.length_singleton]
    · simp [Plan.calls]

/-- A node that is opened around the last one of what is there, and finished. -/
theorem Linkable.around {parts : List Plan} {firstKind : Kind}
    (first : Linkable base before behind firstKind parts earlier)
    (closed : Logged (base + (before.length + 1 + behind.length) + 1) inner children innerLog)
    (real : kind ≠ .tombstone) :
    Linkable base (before ++ .start firstKind (some (behind.length + 1)) :: behind)
      (innerLog ++ [.finish]) kind
      (.node (base + before.length) firstKind parts :: children.reverse) earlier where
  emits link? rest left kinds leads := by
    have lengthEq : (before ++ Event.start firstKind (some (behind.length + 1)) :: behind).length =
        before.length + 1 + behind.length := by
      simp only [List.length_append, List.length_cons]
      omega
    rw [lengthEq] at leads ⊢
    have outer := leads.behind
    -- The link of the first node leads to this one, and from there on.
    have chain : Leads (base + before.length) _ _ _ _ _ := Leads.link (by omega) real outer
    have gap : base + (before.length + 1 + behind.length) - (base + before.length) =
        behind.length + 1 := by omega
    have reach : base + (before.length + 1 + behind.length) =
        base + before.length + 1 + behind.length := by omega
    rw [gap, reach] at chain
    have started := first.emits _ _ _ _ chain
    have emitted := (started.trans (emits_tombstone _ _)).trans (closed.emits_closed left)
    rw [List.append_assoc, List.cons_append]
    refine emitted.of_eq ?_ ?_
    · simp only [List.length_append, List.length_singleton]
    · simp [Plan.calls, Plan.callsOfAll]

theorem perform_precede (front behind : Log) (kind : Kind) (link? : Option Nat) :
    perform (.precede front.length) (front ++ .start kind link? :: behind) =
      some (front ++ .start kind (some (behind.length + 1)) :: behind ++ [.tombstone]) := by
  simp [perform]

theorem Logged.node (logged : Logged base operations earlier log)
    (closed : Logged (base + log.length + 1) inner children innerLog) (real : kind ≠ .tombstone) :
    Logged base (operations ++ .start :: (inner ++ [.complete (base + log.length) kind]))
      (.node (base + log.length) kind children.reverse :: earlier)
      (log ++ .start kind none :: (innerLog ++ [.finish])) := by
  refine (logged.linkable_node closed real).logged ?_ fun front lengthEq => ?_
  · simp [logged.length, closed.length]
  · have opened : base + log.length = (front ++ log).length := by
      rw [List.length_append, lengthEq]
    rw [opened] at closed ⊢
    rw [performAll_append, logged.recorded front lengthEq, Option.bind_some]
    refine (closed.recorded_closed kind).trans ?_
    rw [List.append_assoc]

theorem Logged.around {parts : List Plan} {firstKind : Kind}
    (logged : Logged base operations (.node (base + before.length) firstKind parts :: earlier)
      (before ++ .start firstKind none :: behind))
    (first : Linkable base before behind firstKind parts earlier)
    (closed : Logged (base + operations.length + 1) inner children innerLog)
    (real : kind ≠ .tombstone) :
    Logged base
        (operations ++
          .precede (base + before.length) :: (inner ++ [.complete (base + operations.length) kind]))
        (.node (base + operations.length) kind
          (.node (base + before.length) firstKind parts :: children.reverse) :: earlier)
        (before ++ .start firstKind (some (behind.length + 1)) :: behind ++
          .start kind none :: (innerLog ++ [.finish])) ∧
      Linkable base (before ++ .start firstKind (some (behind.length + 1)) :: behind)
        (innerLog ++ [.finish]) kind
        (.node (base + before.length) firstKind parts :: children.reverse) earlier := by
  have lengthEq : operations.length = before.length + 1 + behind.length := by
    rw [← logged.length, List.length_append, List.length_cons]
    omega
  have reach : (before ++ Event.start firstKind (some (behind.length + 1)) :: behind).length =
      before.length + 1 + behind.length := by
    rw [List.length_append, List.length_cons]
    omega
  rw [lengthEq] at closed ⊢
  have linkable := first.around closed real
  refine ⟨?_, linkable⟩
  rw [← reach]
  refine linkable.logged ?_ fun outside outsideEq => ?_
  · simp [closed.length, lengthEq]
    omega
  · subst outsideEq
    have opened : outside.length +
        (before ++ Event.start firstKind (some (behind.length + 1)) :: behind).length =
          (outside ++ (before ++ .start firstKind (some (behind.length + 1)) :: behind)).length :=
      List.length_append.symm
    rw [← reach, opened] at closed
    rw [opened, performAll_append, logged.recorded outside rfl, Option.bind_some, performAll_cons,
      ← List.length_append, ← List.append_assoc, perform_precede, Option.bind_some,
      List.append_assoc outside, closed.recorded_closed kind, List.append_assoc]

/-- What bracketed operations add to a log, and that a link can be put to the node that
they finished last. -/
theorem Assembles.logged (assembles : Assembles base operations plans) :
    ∃ log, Logged base operations plans log ∧
      ∀ call kind children earlier, plans = .node call kind children :: earlier →
        ∃ before behind, log = before ++ .start kind none :: behind ∧
          call = base + before.length ∧ Linkable base before behind kind children earlier := by
  induction assembles with
  | nil =>
      refine ⟨[], ⟨rfl, fun front _ => ?_, emits_zero _⟩, by simp⟩
      rw [List.append_nil]
      rfl
  | add _ ih =>
      obtain ⟨log, logged, -⟩ := ih
      exact ⟨_, logged.add _, by simp⟩
  | node _ _ real beforeIH innerIH =>
      obtain ⟨log, logged, -⟩ := beforeIH
      obtain ⟨innerLog, closed, -⟩ := innerIH
      rw [← logged.length] at closed ⊢
      refine ⟨_, logged.node closed real, ?_⟩
      rintro _ _ _ _ ⟨⟩
      exact ⟨log, _, rfl, rfl, logged.linkable_node closed real⟩
  | around _ _ real beforeIH innerIH =>
      obtain ⟨log, logged, latest⟩ := beforeIH
      obtain ⟨innerLog, closed, -⟩ := innerIH
      obtain ⟨front, behind, rfl, rfl, first⟩ := latest _ _ _ _ rfl
      obtain ⟨whole, linkable⟩ := logged.around first closed real
      refine ⟨_, whole, ?_⟩
      rintro _ _ _ _ ⟨⟩
      refine ⟨_, _, rfl, ?_, linkable⟩
      rw [← logged.length]
      simp

end Log
end Asm6502
