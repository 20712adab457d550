import JvmAudit.Assembler.Class
import JvmAudit.Proofs.Classpath.Cache
import Mathlib.Data.List.Chain
import Mathlib.Order.Lattice.Nat

/-!
# The lineage of a class

The lineage of a class is described without a walk: the chain of its superclasses
(`ClassSource.IsSuperChain`), and the interfaces that can be reached from the chain, with their
distances (`ClassSource.InterfaceAt`). The walk looks up exactly these names, each once, the chain
first and then the interfaces by distance (`Resolver.lineage_exact`). The class graph may have
cycles and gaps.

A walk is in one of two phases: it climbs the superclasses (`Walk.Climbing`), then it goes over the
interfaces (`Walk.Surveying`). In the second phase the queue has at most two layers
(`ClassSource.Layered`): interfaces at the present distance, then those that are one step further.
-/

namespace JvmAudit

namespace ClassSource

/-! ## Ancestors -/

/-- The class with a name, if it can be loaded. -/
def classAt (s : ClassSource) (name : String) : Option ClassFile := (s.load name).toOption.join

/-- Whether there is no class with a name. -/
def isMissing (s : ClassSource) (name : String) : Bool := (s.classAt name).isNone

/-- The superclass of the class with a name. -/
def superOf (s : ClassSource) (name : String) : Option String :=
  (s.classAt name).bind (·.superClass)

/-- The interfaces of the class with a name. -/
def interfacesOf (s : ClassSource) (name : String) : List String :=
  ((s.classAt name).map (·.interfaces)).getD []

theorem classAt_of_load {s : ClassSource} {name : String} {c : ClassFile}
    (h : s.load name = .ok (some c)) :
    s.classAt name = some c := by
  simp [classAt, h, Except.toOption]

theorem classAt_of_load_none {s : ClassSource} {name : String} (h : s.load name = .ok none) :
    s.classAt name = none := by
  simp [classAt, h, Except.toOption]

/-- A class, its superclass, and so on, up to one that is missing or has no superclass, or whose
superclass is on the chain already. -/
structure IsSuperChain (s : ClassSource) (start : String) (chain : List String) : Prop where
  head : chain.head? = some start
  linked : chain.IsChain fun name up => s.superOf name = some up
  nodup : chain.Nodup
  closed : ∀ up, chain.getLast?.bind s.superOf = some up → up ∈ chain

/-- An interface that can be reached from a chain over so many interfaces. -/
inductive InterfaceAt (s : ClassSource) (chain : List String) : Nat → String → Prop
  | direct {name i : String} (hname : name ∈ chain)
    (hi : i ∈ s.interfacesOf name) : InterfaceAt s chain 1 i
  | step {n : Nat} {name i : String} (hname : InterfaceAt s chain n name)
    (hi : i ∈ s.interfacesOf name) :
    InterfaceAt s chain (n + 1) i

/-- The least number of interfaces over which an interface can be reached. -/
noncomputable def interfaceDistance (s : ClassSource) (chain : List String) (i : String) : Nat :=
  sInf { n | s.InterfaceAt chain n i }

/-- The ancestors of a class: the chain of its superclasses, and the interfaces that can be reached
from the chain and are not on it, by their distance. -/
structure IsLineage (s : ClassSource) (start : String) (chain interfaces : List String) : Prop where
  isSuperChain : s.IsSuperChain start chain
  nodup : (chain ++ interfaces).Nodup
  mem_interfaces : ∀ name, name ∈ interfaces ↔ name ∉ chain ∧ ∃ n, s.InterfaceAt chain n name
  sorted : interfaces.Pairwise fun a b => s.interfaceDistance chain a ≤ s.interfaceDistance chain b

/-- The names for which there is no class and, behind those on the chain, the superclass that closes
a cycle. -/
def missingIn (s : ClassSource) (chain interfaces : List String) : List String :=
  chain.filter s.isMissing ++ (chain.getLast?.bind s.superOf).toList ++
    interfaces.filter s.isMissing

section Layers

variable {s : ClassSource} {chain visited now later queue : List String} {d : Nat} {x : String}

/-- No interface has the distance 0, which is that of the chain itself. -/
theorem InterfaceAt.pos {n : Nat} {i : String} (h : s.InterfaceAt chain n i) : 0 < n := by
  cases h <;> omega

/-- Distances are compared by the paths to an interface. -/
theorem interfaceDistance_le {a b : String} (hb : ∃ n, s.InterfaceAt chain n b)
    (h : ∀ n, s.InterfaceAt chain n b → ∃ m ≤ n, s.InterfaceAt chain m a) :
    s.interfaceDistance chain a ≤ s.interfaceDistance chain b := by
  obtain ⟨m, hm, ha⟩ := h _ (Nat.sInf_mem hb)
  exact (Nat.sInf_le ha).trans hm

/-! ## Breadth first

In the queue there are interfaces at one distance, `now`, and behind them those at the next one,
`later`. All that are nearer were visited. -/

/-- The invariant of a walk over interfaces. -/
structure Layered (s : ClassSource) (chain visited : List String) (d : Nat)
    (now later : List String) : Prop where
  visited_at : ∀ x ∈ visited, ∃ n ≤ d + 1, s.InterfaceAt chain n x
  nearer_seen : ∀ n ≤ d, ∀ x, s.InterfaceAt chain n x → x ∈ chain ++ visited
  now_at : ∀ x ∈ now, s.InterfaceAt chain (d + 1) x
  later_at : ∀ x ∈ later, s.InterfaceAt chain (d + 2) x
  layer : ∀ x, s.InterfaceAt chain (d + 1) x → x ∈ chain ++ visited ∨ x ∈ now
  closed : ∀ x ∈ chain ++ visited, ∀ i ∈ s.interfacesOf x, i ∈ chain ++ visited ∨ i ∈ now ++ later
  sorted : visited.Pairwise fun a b => ∀ n, s.InterfaceAt chain n b →
    ∃ m ≤ n, s.InterfaceAt chain m a

/-- The queue has two layers. -/
def Frontier (s : ClassSource) (chain visited queue : List String) : Prop :=
  ∃ d now later, queue = now ++ later ∧ s.Layered chain visited d now later

/-- In the beginning the queue has the interfaces of the chain, at distance 1. -/
theorem frontier_start (s : ClassSource) (chain : List String) :
    s.Frontier chain [] (chain.flatMap s.interfacesOf) := by
  refine ⟨0, _, [], (List.append_nil _).symm, ?_⟩
  refine ⟨by simp, ?_, ?_, by simp, ?_, ?_, List.Pairwise.nil⟩
  · intro n hn x hx
    have := hx.pos
    omega
  · intro x hx
    obtain ⟨name, hname, hi⟩ := List.mem_flatMap.1 hx
    exact .direct hname hi
  · intro x hx
    cases hx with
    | direct hname hi => exact .inr (List.mem_flatMap.2 ⟨_, hname, hi⟩)
    | step hname => exact absurd hname.pos (Nat.lt_irrefl 0)
  · intro x hx i hi
    rw [List.append_nil] at hx ⊢
    exact .inr (List.mem_append_left _ (List.mem_flatMap.2 ⟨x, hx, hi⟩))

namespace Layered

/-- When no interface is left at this distance, those at the next one come. -/
theorem shift (h : s.Layered chain visited d [] later) :
    s.Layered chain visited (d + 1) later [] := by
  have hlayer : ∀ x, s.InterfaceAt chain (d + 1) x → x ∈ chain ++ visited := by
    intro x hx
    simpa using h.layer x hx
  refine ⟨?_, ?_, h.later_at, by simp, ?_, by simpa using h.closed, h.sorted⟩
  · intro x hx
    obtain ⟨n, hn, hat⟩ := h.visited_at x hx
    exact ⟨n, by omega, hat⟩
  · intro n hn x hx
    rcases Nat.lt_or_ge n (d + 1) with hlt | hge
    · exact h.nearer_seen n (by omega) x hx
    · obtain rfl : n = d + 1 := by omega
      exact hlayer x hx
  · intro x hx
    cases hx with
    | step hname hi => simpa using h.closed _ (hlayer _ hname) x hi

/-- A name that was visited can be dropped from the front of the queue. -/
theorem skip (h : s.Layered chain visited d (x :: now) later) (hx : x ∈ chain ++ visited) :
    s.Layered chain visited d now later := by
  refine ⟨h.visited_at, h.nearer_seen, fun y hy => h.now_at y (List.mem_cons_of_mem _ hy),
    h.later_at, ?_, ?_, h.sorted⟩
  · intro y hy
    rcases h.layer y hy with hy | hy
    · exact .inl hy
    · rcases List.mem_cons.1 hy with rfl | hy
      · exact .inl hx
      · exact .inr hy
  · intro y hy i hi
    rcases h.closed y hy i hi with hi | hi
    · exact .inl hi
    · rcases List.mem_cons.1 hi with rfl | hi
      · exact .inl hx
      · exact .inr hi

/-- A name that is new is visited, and its interfaces go behind the next layer. -/
theorem visit (h : s.Layered chain visited d (x :: now) later) (hx : x ∉ chain ++ visited) :
    s.Layered chain (visited ++ [x]) d now (later ++ s.interfacesOf x) := by
  have hat : s.InterfaceAt chain (d + 1) x := h.now_at x List.mem_cons_self
  have hmono : ∀ y ∈ chain ++ visited, y ∈ chain ++ (visited ++ [x]) := by
    intro y hy
    rw [← List.append_assoc]
    exact List.mem_append_left _ hy
  have hself : x ∈ chain ++ (visited ++ [x]) := by simp
  refine ⟨?_, ?_, ?_, ?_, ?_, ?_, ?_⟩
  · intro y hy
    rcases List.mem_append.1 hy with hy | hy
    · exact h.visited_at y hy
    · rw [List.mem_singleton.1 hy]
      exact ⟨d + 1, le_rfl, hat⟩
  · intro n hn y hy
    exact hmono y (h.nearer_seen n hn y hy)
  · intro y hy
    exact h.now_at y (List.mem_cons_of_mem _ hy)
  · intro y hy
    rcases List.mem_append.1 hy with hy | hy
    · exact h.later_at y hy
    · exact .step hat hy
  · intro y hy
    rcases h.layer y hy with hy | hy
    · exact .inl (hmono y hy)
    · rcases List.mem_cons.1 hy with rfl | hy
      · exact .inl hself
      · exact .inr hy
  · intro y hy i hi
    rw [← List.append_assoc, List.mem_append, List.mem_singleton] at hy
    rcases hy with hy | rfl
    · rcases h.closed y hy i hi with hi | hi
      · exact .inl (hmono i hi)
      · rcases List.mem_cons.1 hi with rfl | hi
        · exact .inl hself
        · refine .inr ?_
          rw [← List.append_assoc]
          exact List.mem_append_left _ hi
    · exact .inr (List.mem_append_right _ (List.mem_append_right _ hi))
  · rw [List.pairwise_append]
    refine ⟨h.sorted, List.pairwise_singleton _ _, ?_⟩
    -- an interface that is nearer than this one would have been visited before
    intro a ha b hb n hn
    rw [List.mem_singleton.1 hb] at hn
    obtain ⟨m, hm, hma⟩ := h.visited_at a ha
    refine ⟨m, ?_, hma⟩
    by_contra hlt
    exact hx (h.nearer_seen n (by omega) x hn)

end Layered

namespace Frontier

/-- The first name of the queue is at the present distance, possibly that of the next layer. -/
theorem exists_head (h : s.Frontier chain visited (x :: queue)) :
    ∃ d now later, queue = now ++ later ∧ s.Layered chain visited d (x :: now) later := by
  obtain ⟨d, now, later, hq, hl⟩ := h
  cases now with
  | nil =>
    obtain rfl : x :: queue = later := hq
    exact ⟨d + 1, queue, [], (List.append_nil _).symm, hl.shift⟩
  | cons y now =>
    obtain ⟨rfl, rfl⟩ := List.cons.inj hq
    exact ⟨d, now, later, rfl, hl⟩

theorem skip {skipped : List String} (h : s.Frontier chain visited (skipped ++ queue))
    (hs : skipped ⊆ chain ++ visited) : s.Frontier chain visited queue := by
  induction skipped with
  | nil => exact h
  | cons x skipped ih =>
    obtain ⟨hx, hs⟩ := List.cons_subset.1 hs
    obtain ⟨d, now, later, hq, hl⟩ := h.exists_head
    exact ih ⟨d, now, later, hq, hl.skip hx⟩ hs

/-- One step of the second phase, with the layers left out. -/
theorem visit (h : s.Frontier chain visited (x :: queue)) (hx : x ∉ chain ++ visited) :
    s.Frontier chain (visited ++ [x]) (queue ++ s.interfacesOf x) := by
  obtain ⟨d, now, later, rfl, hl⟩ := h.exists_head
  exact ⟨d, now, later ++ s.interfacesOf x, List.append_assoc _ _ _, hl.visit hx⟩

/-- When all that is queued was seen, all interfaces were. -/
theorem complete (h : s.Frontier chain visited queue) (hq : queue ⊆ chain ++ visited)
    {n : Nat} {i : String} (hi : s.InterfaceAt chain n i) : i ∈ chain ++ visited := by
  obtain ⟨d, now, later, rfl, hl⟩ := h
  have hclosed : ∀ x ∈ chain ++ visited, ∀ i ∈ s.interfacesOf x, i ∈ chain ++ visited := by
    intro x hx i hi
    rcases hl.closed x hx i hi with hi | hi
    · exact hi
    · exact hq hi
  induction hi with
  | direct hname hi => exact hclosed _ (List.mem_append_left _ hname) _ hi
  | step _ hi ih => exact hclosed _ ih _ hi

theorem visited_at (h : s.Frontier chain visited queue) (hx : x ∈ visited) :
    ∃ n, s.InterfaceAt chain n x := by
  obtain ⟨d, now, later, _, hl⟩ := h
  obtain ⟨n, _, hn⟩ := hl.visited_at x hx
  exact ⟨n, hn⟩

/-- The interfaces are visited by their distance. -/
theorem sorted (h : s.Frontier chain visited queue) :
    visited.Pairwise fun a b => s.interfaceDistance chain a ≤ s.interfaceDistance chain b := by
  have hat : ∀ x ∈ visited, ∃ n, s.InterfaceAt chain n x := fun x hx => h.visited_at hx
  obtain ⟨d, now, later, _, hl⟩ := h
  exact hl.sorted.imp_of_mem fun _ hb hab => interfaceDistance_le (hat _ hb) hab

end Frontier

end Layers

end ClassSource

/-! ## The phases of a walk -/

namespace Walk

variable {s : ClassSource} {start : String} {chain visited log : List String}
  {w w' : Walk} {r : Request}

/-- The walk after a look-up that did not fail. -/
def Request.answered (s : ClassSource) (r : Request) : Walk :=
  ⟨if r.ofSuper then s.superOf r.name else none, r.walk.queue ++ s.interfacesOf r.name, r.walk.seen,
    r.walk.missing ++ [r.name].filter s.isMissing⟩

theorem Asks.missed_eq (h : Asks w r) (hl : s.load r.name = .ok none) :
    r.missed = r.answered s := by
  cases h <;> simp [Request.missed, Request.answered, ClassSource.superOf, ClassSource.interfacesOf,
    ClassSource.isMissing, ClassSource.classAt, hl, Except.toOption]

theorem Asks.found_eq {c : ClassFile} (h : Asks w r) (hl : s.load r.name = .ok (some c)) :
    r.found c = r.answered s := by
  cases h <;> simp [Request.found, Request.answered, ClassSource.superOf, ClassSource.interfacesOf,
    ClassSource.isMissing, ClassSource.classAt, hl, Except.toOption]

/-- A walk on a chain of superclasses. -/
structure Climbing (s : ClassSource) (start : String) (chain : List String) (w : Walk) : Prop where
  seen : w.seen = chain.reverse
  queue : w.queue = chain.flatMap s.interfacesOf
  missing : w.missing = chain.filter s.isMissing
  linked : chain.IsChain fun name up => s.superOf name = some up
  nodup : chain.Nodup
  next : chain = [] ∧ w.nextSuper = some start ∨
    chain.head? = some start ∧ w.nextSuper = chain.getLast?.bind s.superOf

/-- A walk over interfaces, when the chain is complete. -/
structure Surveying (s : ClassSource) (start : String) (chain visited : List String)
    (w : Walk) : Prop where
  isSuperChain : s.IsSuperChain start chain
  last : w.nextSuper.toList ⊆ w.seen
  nodup : (chain ++ visited).Nodup
  seen : w.seen = (chain ++ visited).reverse
  missing : w.missing ++ w.nextSuper.toList = s.missingIn chain visited
  frontier : s.Frontier chain visited w.queue

theorem climbing_start (s : ClassSource) (start : String) : Climbing s start [] (.start start) :=
  ⟨rfl, rfl, rfl, List.IsChain.nil, List.nodup_nil, .inl ⟨rfl, rfl⟩⟩

/-- In the first phase a look-up makes the chain longer by one class. -/
theorem Climbing.superclass {name : String} {queue seen missing : List String}
    (h : Climbing s start chain ⟨some name, queue, seen, missing⟩) (hname : name ∉ seen) :
    Climbing s start (chain ++ [name])
      (Request.answered s ⟨name, true, ⟨none, queue, name :: seen, missing⟩⟩) := by
  obtain rfl : seen = chain.reverse := h.seen
  obtain rfl : queue = chain.flatMap s.interfacesOf := h.queue
  obtain rfl : missing = chain.filter s.isMissing := h.missing
  refine ⟨by simp [Request.answered], by simp [Request.answered], by simp [Request.answered], ?_,
    ?_, .inr ⟨?_, ?_⟩⟩
  · refine h.linked.append (List.IsChain.singleton _) ?_
    intro x hx y hy
    obtain rfl : name = y := by simpa using hy
    rcases h.next with ⟨rfl, _⟩ | ⟨_, hnext⟩
    · simp at hx
    · rw [Option.mem_def.1 hx, Option.bind_some] at hnext
      exact hnext.symm
  · exact List.nodup_append.2 ⟨h.nodup, List.nodup_singleton _, by grind⟩
  · rcases h.next with ⟨rfl, hnext⟩ | ⟨hhead, _⟩
    · simpa using hnext
    · simp [hhead]
  · simp [Request.answered]

/-- The chain ends where there is no superclass, or one that is on the chain already. -/
theorem Climbing.surveying (h : Climbing s start chain w) (hlast : w.nextSuper.toList ⊆ w.seen) :
    Surveying s start chain [] w := by
  rcases h.next with ⟨rfl, hnext⟩ | ⟨hhead, hnext⟩
  · rw [hnext, h.seen] at hlast
    simp at hlast
  · refine ⟨⟨hhead, h.linked, h.nodup, ?_⟩, hlast, by simpa using h.nodup,
      by simpa using h.seen, ?_, ?_⟩
    · intro up hup
      rw [hnext, hup, h.seen] at hlast
      simpa using hlast
    · rw [h.missing, hnext, ClassSource.missingIn, List.filter_nil, List.append_nil]
    · rw [h.queue]
      exact ClassSource.frontier_start s chain

/-- In the second phase a look-up visits the first interface of the queue that is new. -/
theorem Surveying.interface {last : Option String} {skipped queue seen missing : List String}
    {name : String}
    (h : Surveying s start chain visited ⟨last, skipped ++ name :: queue, seen, missing⟩)
    (hskipped : skipped ⊆ seen) (hname : name ∉ seen) :
    Surveying s start chain (visited ++ [name])
      (Request.answered s ⟨name, false, ⟨none, queue, name :: seen, missing ++ last.toList⟩⟩) := by
  obtain rfl : seen = (chain ++ visited).reverse := h.seen
  have hskip : skipped ⊆ chain ++ visited := fun x hx => List.mem_reverse.1 (hskipped hx)
  have hnew : name ∉ chain ++ visited := fun hm => hname (List.mem_reverse.2 hm)
  refine ⟨h.isSuperChain, by simp [Request.answered], ?_, by simp [Request.answered], ?_, ?_⟩
  · rw [← List.append_assoc]
    exact List.nodup_append.2 ⟨h.nodup, List.nodup_singleton _, by grind⟩
  · have hmissing := h.missing
    simp only [Request.answered, ClassSource.missingIn, Bool.false_eq_true, if_false,
      Option.toList_none, List.append_nil, List.filter_append] at hmissing ⊢
    rw [hmissing, List.append_assoc]
  · exact (h.frontier.skip hskip).visit hnew

/-! ## Whole walks -/

/-- The look-ups of a walk that is not stopped and where none fails. -/
inductive Run (s : ClassSource) : Walk → List String → Walk → Prop
  | ended {w : Walk} (hr : w.request? = none) : Run s w [] w.ended
  | answered {w w' : Walk} {r : Request} {names : List String} (hr : w.request? = some r)
    (h : Run s (r.answered s) names w') : Run s w (r.name :: names) w'

/-- A walk that is not stopped and does not fail gives the classes of all names that it looks up. -/
theorem Trace.run_of_ok {result : Except ClasspathError (List ClassFile)} {classes : List ClassFile}
    (h : Trace s (fun _ => false) w log result w') (hok : result = .ok classes) :
    Run s w log w' ∧ classes = log.filterMap s.classAt := by
  induction h generalizing classes with
  | ended hr =>
    cases hok
    exact ⟨.ended hr, rfl⟩
  | failed => cases hok
  | missed hr hl _ ih =>
    obtain ⟨hrun, rfl⟩ := ih hok
    rw [(asks_of_request hr).missed_eq hl] at hrun
    exact ⟨.answered hr hrun,
      by rw [List.filterMap_cons_none (ClassSource.classAt_of_load_none hl)]⟩
  | stopped _ _ hc => cases hc
  | found hr hl _ _ ih =>
    obtain ⟨rest, hrest, rfl⟩ := Result.map_eq_ok.1 hok
    obtain ⟨hrun, rfl⟩ := ih hrest
    rw [(asks_of_request hr).found_eq hl] at hrun
    exact ⟨.answered hr hrun, by rw [List.filterMap_cons_some (ClassSource.classAt_of_load hl)]⟩

/-- If all classes can be read, a walk that does not stop gives all classes that it looks up and
finds. -/
theorem Trace.run (hs : s.Readable) {result : Except ClasspathError (List ClassFile)}
    (h : Trace s (fun _ => false) w log result w') :
    Run s w log w' ∧ result = .ok (log.filterMap s.classAt) := by
  obtain ⟨classes, rfl⟩ := h.exists_ok hs
  obtain ⟨hrun, rfl⟩ := h.run_of_ok rfl
  exact ⟨hrun, rfl⟩

/-- The state of a walk that has ended. -/
structure Surveyed (s : ClassSource) (start : String) (chain interfaces : List String)
    (w : Walk) : Prop where
  isLineage : s.IsLineage start chain interfaces
  seen : w.seen = (chain ++ interfaces).reverse
  missing : w.missing = s.missingIn chain interfaces

/-- When nothing is left to look up, all interfaces that can be reached were visited. -/
theorem Surveying.surveyed (h : Surveying s start chain visited w) (hr : w.request? = none) :
    Surveyed s start chain visited w.ended := by
  have hqueue : w.queue ⊆ chain ++ visited := by
    intro x hx
    have hseen := pending_subset_of_request hr (List.mem_append_right _ hx)
    rw [h.seen] at hseen
    exact List.mem_reverse.1 hseen
  refine ⟨⟨h.isSuperChain, h.nodup, ?_, h.frontier.sorted⟩, h.seen, h.missing⟩
  intro name
  constructor
  · intro hname
    exact ⟨fun hc => List.disjoint_of_nodup_append h.nodup hc hname, h.frontier.visited_at hname⟩
  · rintro ⟨hc, n, hn⟩
    exact (List.mem_append.1 (h.frontier.complete hqueue hn)).resolve_left hc

theorem Surveying.answered (h : Surveying s start chain visited w) (hr : w.request? = some r) :
    Surveying s start chain (visited ++ [r.name]) (r.answered s) := by
  cases asks_of_request hr with
  | superclass hname => exact absurd (h.last (by simp)) hname
  | interface _ hskipped hname => exact h.interface hskipped hname

/-- A walk over interfaces goes on to the last of them. -/
theorem Surveying.run_extends (h : Surveying s start chain visited w) (hrun : Run s w log w') :
    ∃ interfaces, visited <+: interfaces ∧ Surveyed s start chain interfaces w' := by
  induction hrun generalizing visited with
  | ended hr => exact ⟨visited, List.prefix_rfl, h.surveyed hr⟩
  | answered hr _ ih =>
    obtain ⟨interfaces, hextends, hw⟩ := ih (h.answered hr)
    exact ⟨interfaces, (List.prefix_append _ _).trans hextends, hw⟩

/-- A walk on a chain of superclasses goes on to its end, and then over the interfaces. -/
theorem Climbing.run_extends (h : Climbing s start chain w) (hrun : Run s w log w') :
    ∃ whole interfaces, chain <+: whole ∧ Surveyed s start whole interfaces w' := by
  induction hrun generalizing chain with
  | ended hr =>
    have hsurvey := h.surveying fun _ hx => pending_subset_of_request hr (List.mem_append_left _ hx)
    exact ⟨chain, [], List.prefix_rfl, hsurvey.surveyed hr⟩
  | answered hr hrun ih =>
    cases asks_of_request hr with
    | superclass hname =>
      obtain ⟨whole, interfaces, hextends, hw⟩ := ih (h.superclass hname)
      exact ⟨whole, interfaces, (List.prefix_append _ _).trans hextends, hw⟩
    | interface hlast hskipped hname =>
      obtain ⟨interfaces, _, hw⟩ := ((h.surveying hlast).interface hskipped hname).run_extends hrun
      exact ⟨chain, interfaces, List.prefix_rfl, hw⟩

/-- A walk to its end looks up a chain and its interfaces. The induction is over the look-ups, in
both phases. -/
theorem Climbing.run (h : Climbing s start chain w) (hrun : Run s w log w') :
    ∃ chain interfaces, Surveyed s start chain interfaces w' := by
  obtain ⟨whole, interfaces, _, hw⟩ := h.run_extends hrun
  exact ⟨whole, interfaces, hw⟩

end Walk

/-! ## The lineage -/

/-- When no look-up fails, the lineage of a class can be given: the walk looks up each of its names
once and no other one, the chain first, and gives their classes and what is missing. What was
remembered before does not matter. -/
theorem Resolver.lineage_exact (r : Resolver) (start : String) (hr : r.Sound)
    (h : r.source.Readable) :
    ∃ chain interfaces, r.source.IsLineage start chain interfaces ∧
      (∃ result w, r.source.collect (fun _ => false) start = (result, w) ∧
        Walk.Trace r.source (fun _ => false) (.start start) (chain ++ interfaces) result w ∧
        w.seen = (chain ++ interfaces).reverse) ∧
      r.lineage start =
        (.ok ⟨(chain ++ interfaces).filterMap r.source.classAt,
          r.source.missingIn chain interfaces⟩,
          r.loadAll (chain ++ interfaces)) := by
  obtain ⟨log, result, w, ht, hc⟩ := Walk.exists_trace r.source (fun _ => false) start
  obtain ⟨hrun, rfl⟩ := ht.run h
  obtain ⟨chain, interfaces, hw⟩ := (Walk.climbing_start r.source start).run hrun
  obtain rfl : log = chain ++ interfaces := by
    have hseen : w.seen = log.reverse := by simpa [Walk.start] using ht.seen
    rw [hw.seen] at hseen
    exact (List.reverse_injective hseen).symm
  refine ⟨chain, interfaces, hw.isLineage, ⟨_, w, hc, ht, hw.seen⟩, Prod.ext ?_ ?_⟩
  · rw [hr.lineage_fst, ClassSource.lineage_eq, hc, ← hw.missing]
  · rw [hr.lineage_snd, hc, hw.seen, List.reverse_reverse]

/-! Two classes that are each other's superclass, with interfaces in a cycle, one of which is
missing. One interface is read from a directory, which also has a file for one of the classes at
hand, and one from an archive behind it. -/

namespace CyclicGraph

def first : ClassFile := ⟨"g.A", 1, 52, none, some "g.B", ["g.I", "g.J"], [], [], []⟩
def second : ClassFile := ⟨"g.B", 1, 52, none, some "g.A", ["g.J"], [], [], []⟩
def inner : ClassFile := ⟨"g.I", 513, 52, none, some "g.Object", ["g.K"], [], [], []⟩

/-- The bytes of a class with these interfaces. -/
def fileOf (name : String) (interfaces : List String) : Bytes :=
  (Assembler.ClassSpec.build { Assembler.ClassSpec.ofName name with interfaces }).data

/-- A directory with a file for an interface, and one for a class that is at hand. -/
def directory : Container := .directory "classes" ⟨.dir [("classes", .dir [("g", .dir [
  ("B.class", .file (.ok ⟨(fileOf "g.B" []).toArray⟩)),
  ("J.class", .file (.ok ⟨(fileOf "g.J" ["g.B", "g.K", "g.M"]).toArray⟩))])])], []⟩

/-- An archive with files for two interfaces; one of them is in the directory too. -/
def archive : Container := .archive "lib.jar" "" (.ofList [("g/J.class", fileOf "g.J" []),
  ("g/K.class", fileOf "g.K" ["g.I"])])

def resolver : Resolver := .ofSource ⟨[first, second, inner], [directory, archive]⟩

theorem readable_source : resolver.source.Readable := by
  refine ClassSource.readable_of_containers ?_
  simp only [resolver, Resolver.ofSource, List.forall_mem_cons, List.not_mem_nil,
    false_implies, implies_true, and_true]
  exact ⟨Container.intact_directory (by decide +kernel),
    Container.intact_archive (by decide +kernel)⟩

theorem lineage_exact_first : resolver.source.Readable ∧ ∃ chain interfaces,
    resolver.source.IsLineage "g.A" chain interfaces ∧
    ((chain ++ interfaces).filterMap resolver.source.classAt).map (·.name) =
      ["g.A", "g.B", "g.I", "g.J", "g.K"] ∧
    resolver.source.missingIn chain interfaces = ["g.A", "g.M"] := by
  have hsound : resolver.Sound := Resolver.sound_ofSource _
  obtain ⟨chain, interfaces, hlineage, _, hresult⟩ :=
    Resolver.lineage_exact resolver "g.A" hsound readable_source
  have hvalue : (resolver.source.lineage "g.A").map (fun l => (l.classes.map (·.name), l.missing)) =
      .ok (["g.A", "g.B", "g.I", "g.J", "g.K"], ["g.A", "g.M"]) := by decide +kernel
  rw [← hsound.lineage_fst, hresult] at hvalue
  injection hvalue with hvalue
  obtain ⟨hclasses, hmissing⟩ := Prod.mk.inj hvalue
  exact ⟨readable_source, chain, interfaces, hlineage, hclasses, hmissing⟩

end CyclicGraph

end JvmAudit
