import JvmAudit.Assembler.Tables
import JvmAudit.Proofs.ClassFile.Pool

/-!
# Tables that grow

While a class is assembled its tables only grow, and the pool stays numbered. What a step says about
its result holds in all tables that the tables grow into, so it holds in those that are written
(`Assembler.Assembles`).

## Main results

* `Assembles.bind`, `Assembles.mapM`: the rules for steps in sequence
* `assembles_constant`: an index leads to its constant, then and later
-/

namespace JvmAudit.Assembler

/-! ## Pools -/

namespace PoolBuilder

variable {p q : PoolBuilder}

/-- The pool grows into another one. -/
def Extends (p q : PoolBuilder) : Prop := p.entries <+: q.entries

/-- Entries are numbered one behind the other, none is there twice, and they point to slots of the
pool. -/
structure Sound (p : PoolBuilder) : Prop where
  numbered : Pool.Numbered 1 p.entries p.next
  nodup : (p.entries.map (·.1)).Nodup
  bounded : ∀ e ∈ p.entries, e.1.Bounded p.next

/-- The pool that is read back. -/
def toPool (p : PoolBuilder) : Pool := .ofEntries p.entries

theorem Extends.refl (p : PoolBuilder) : p.Extends p := List.prefix_rfl

theorem Extends.trans {r : PoolBuilder} (h : p.Extends q) (h' : q.Extends r) : p.Extends r :=
  List.IsPrefix.trans h h'

/-- The empty pool is sound: its first entry will get the index 1. -/
theorem sound_empty : empty.Sound := ⟨rfl, List.nodup_nil, fun _ he => absurd he (by simp [empty])⟩

theorem Sound.lt_next (h : p.Sound) {c : ConstantInfo} {i : Nat}
    (he : (c, i) ∈ p.entries) : i < p.next :=
  h.numbered.lt he

/-- An index that is found belongs to an entry of the pool. -/
theorem mem_of_indexOf? {c : ConstantInfo} {i : Nat} (h : p.indexOf? c = some i) :
    (c, i) ∈ p.entries := by
  unfold indexOf? at h
  obtain ⟨e, he, rfl⟩ := Option.map_eq_some_iff.1 h
  have hc : e.1 = c := by simpa using List.find?_some he
  rw [← hc]
  exact List.mem_of_find?_eq_some he

/-- If no index is found, the pool has no such entry. -/
theorem notMem_of_indexOf? {c : ConstantInfo} (h : p.indexOf? c = none) :
    c ∉ p.entries.map (·.1) := by
  intro hmem
  obtain ⟨e, he, rfl⟩ := List.mem_map.1 hmem
  have hne := List.find?_eq_none.1 (Option.map_eq_none_iff.1 h) e he
  simp at hne

/-- An entry is found at its only index. -/
theorem Sound.indexOf?_eq (h : p.Sound) {c : ConstantInfo} {i : Nat} (he : (c, i) ∈ p.entries) :
    p.indexOf? c = some i := by
  have hnodup := h.nodup
  unfold indexOf?
  generalize p.entries = es at he hnodup
  induction es with
  | nil => cases he
  | cons e es ih =>
    obtain ⟨hfirst, hrest⟩ := List.nodup_cons.1 hnodup
    rcases List.mem_cons.1 he with rfl | he
    · rw [List.find?_cons_of_pos (by simp)]
      rfl
    · have hne : e.1 ≠ c := by
        rintro rfl
        exact hfirst (List.mem_map.2 ⟨_, he, rfl⟩)
      rw [List.find?_cons_of_neg (by simpa using hne)]
      exact ih he hrest

/-- An entry is put behind those that are there already. -/
theorem extends_intern (p : PoolBuilder) (c : ConstantInfo) : p.Extends (p.intern c).2 := by
  unfold intern
  split
  · exact .refl p
  · exact List.prefix_append _ _

/-- The index that is returned is that of the entry, whether it was there before or not. -/
theorem mem_intern (p : PoolBuilder) (c : ConstantInfo) :
    (c, (p.intern c).1) ∈ (p.intern c).2.entries := by
  unfold intern
  split
  · next h => exact mem_of_indexOf? h
  · simp

theorem next_le_intern (p : PoolBuilder) (c : ConstantInfo) : p.next ≤ (p.intern c).2.next := by
  unfold intern
  split
  · exact Nat.le_refl _
  · exact Nat.le_add_right _ _

/-- A sound pool stays sound if the new entry refers only to entries before it. -/
theorem Sound.intern (h : p.Sound) {c : ConstantInfo} (hc : c.Bounded p.next) :
    (p.intern c).2.Sound := by
  unfold PoolBuilder.intern
  split
  · exact h
  · next hnone =>
    refine ⟨h.numbered.append, ?_, ?_⟩
    · rw [List.map_append, List.map_singleton, List.nodup_append]
      refine ⟨h.nodup, by simp, ?_⟩
      rintro a ha b hb rfl
      have hc : a = c := List.mem_singleton.1 hb
      exact notMem_of_indexOf? hnone (hc ▸ ha)
    have hle : p.next ≤ p.next + c.slots := Nat.le_add_right _ _
    intro e he
    rcases List.mem_append.1 he with he | he
    · exact (h.bounded e he).mono hle
    · rw [List.mem_singleton.1 he]
      exact hc.mono hle

end PoolBuilder

/-- A bootstrap method that points to slots below a limit, and whose arguments can be counted. -/
structure BootstrapBounded (limit : Nat) (m : BootstrapMethod) : Prop where
  handle : m.handle < limit
  arguments : ∀ i ∈ m.arguments, i < limit
  arguments_length : m.arguments.length ≤ 0xFFFF

/-- Bounds on the indices of a bootstrap method may be raised. -/
theorem BootstrapBounded.mono {limit limit' : Nat} {m : BootstrapMethod}
    (h : BootstrapBounded limit m) (hle : limit ≤ limit') : BootstrapBounded limit' m :=
  ⟨Nat.lt_of_lt_of_le h.handle hle, fun i hi => Nat.lt_of_lt_of_le (h.arguments i hi) hle,
    h.arguments_length⟩

/-- Tables in order: the pool is, and bootstrap methods point to slots of it. -/
structure Tables.Sound (t : Tables) : Prop extends PoolBuilder.Sound t.pool where
  bootstraps : ∀ m ∈ t.bootstraps, BootstrapBounded t.pool.next m

theorem Tables.sound_empty : Tables.Sound ⟨.empty, []⟩ :=
  ⟨PoolBuilder.sound_empty, fun _ hm => nomatch hm⟩

/-- The tables grow into others. -/
structure Tables.Extends (t u : Tables) : Prop where
  pool : t.pool.Extends u.pool
  bootstraps : t.bootstraps <+: u.bootstraps

theorem Tables.Extends.refl (t : Tables) : t.Extends t := ⟨.refl _, List.prefix_rfl⟩

theorem Tables.Extends.trans {t u v : Tables} (h : t.Extends u) (h' : u.Extends v) : t.Extends v :=
  ⟨h.pool.trans h'.pool, h.bootstraps.trans h'.bootstraps⟩

/-! ## Steps -/

section Assembles

variable {α β : Type} {C D : Tables → Prop} {P : Tables → α → Prop} {Q : Tables → β → Prop}

/-- A condition holds in all tables that the tables grow into. -/
def Lasts (t : Tables) (C : Tables → Prop) : Prop := ∀ u, t.Extends u → u.Sound → C u

/-- A step that starts where `C` lasts keeps the tables in order, only adds to the tables, and then
`P` lasts for its result. -/
def Assembles (C : Tables → Prop) (m : Assemble α) (P : Tables → α → Prop) : Prop :=
  ∀ t : Tables, t.Sound → Lasts t C →
    (m.run t).2.Sound ∧ t.Extends (m.run t).2 ∧ Lasts (m.run t).2 fun u => P u (m.run t).1

/-- What lasts from some tables on, also lasts from later ones on. -/
theorem Lasts.mono {t u : Tables} (h : Lasts t C) (htu : t.Extends u) : Lasts u C :=
  fun v huv => h v (htu.trans huv)

theorem Lasts.self {t : Tables} (h : Lasts t C) (ht : t.Sound) : C t := h t (.refl t) ht

/-- An assembly may assume more than it needs. -/
theorem Assembles.given {m : Assemble α} (h : Assembles C m P) (hC : ∀ u, D u → C u) :
    Assembles D m P := by
  intro t ht hD
  exact h t ht fun u hu hus => hC u (hD u hu hus)

/-- The conclusion about an assembly can be weakened, for sound tables under its condition. -/
theorem Assembles.imp {m : Assemble α} {P' : Tables → α → Prop} (h : Assembles C m P)
    (hP : ∀ u a, u.Sound → C u → P u a → P' u a) : Assembles C m P' := by
  intro t ht hC
  obtain ⟨hs, he, hl⟩ := h t ht hC
  exact ⟨hs, he, fun u hu hus => hP u _ hus (hC.mono he u hu hus) (hl u hu hus)⟩

/-- An assembly that writes nothing ensures what holds of all tables. -/
theorem assembles_pure {a : α} (h : ∀ u, u.Sound → C u → P u a) : Assembles C (pure a) P :=
  fun _ ht hC => ⟨ht, .refl _, fun u hu hus => h u hus (hC u hu hus)⟩

/-- A step that starts from known tables goes on with the result that it has there. -/
theorem Assembles.bind_run {t : Tables} {m : Assemble α} {f : α → Assemble β} (hm : Assembles C m P)
    (ht : t.Sound) (hC : Lasts t C)
    (hf : Assembles (fun u => C u ∧ P u (m.run t).1) (f (m.run t).1) Q) :
    ((m >>= f).run t).2.Sound ∧ t.Extends ((m >>= f).run t).2 ∧
      Lasts ((m >>= f).run t).2 fun u => Q u ((m >>= f).run t).1 := by
  obtain ⟨hs, he, hl⟩ := hm t ht hC
  obtain ⟨hs', he', hl'⟩ := hf (m.run t).2 hs fun u hu hus => ⟨hC.mono he u hu hus, hl u hu hus⟩
  exact ⟨hs', he.trans he', hl'⟩

/-- In sequence, the second assembly may use what the first one ensures, since that lasts. -/
theorem Assembles.bind {m : Assemble α} {f : α → Assemble β} (hm : Assembles C m P)
    (hf : ∀ a, Assembles (fun u => C u ∧ P u a) (f a) Q) : Assembles C (m >>= f) Q :=
  fun _ ht hC => hm.bind_run ht hC (hf _)

/-- What is ensured for each element lasts until all of them are assembled. -/
theorem Assembles.mapM {l : List α} {f : α → Assemble β} {R : Tables → α → β → Prop}
    (h : ∀ a ∈ l, Assembles C (f a) fun u b => R u a b) :
    Assembles C (l.mapM f) fun u bs => List.Forall₂ (R u) l bs := by
  induction l with
  | nil =>
    rw [List.mapM_nil]
    exact assembles_pure fun _ _ _ => .nil
  | cons a l ih =>
    rw [List.mapM_cons]
    refine (h a List.mem_cons_self).bind fun b => ?_
    -- what holds for the first element still holds when the others are done
    have htail := ih fun x hx => h x (List.mem_cons_of_mem _ hx)
    refine (htail.given fun u hu => hu.1).bind fun bs => ?_
    exact assembles_pure fun u _ hu => .cons hu.1.2 hu.2

theorem Assembles.optionMapM {o : Option α} {f : α → Assemble β} {R : Tables → α → β → Prop}
    (h : ∀ a, Assembles C (f a) fun u b => R u a b) :
    Assembles C (o.mapM f) fun u r => Option.Rel (R u) o r := by
  cases o with
  | none => exact assembles_pure fun _ _ _ => .none
  | some a => exact (h a).bind fun b => assembles_pure fun u _ hu => .some hu.2

/-- The tables that are looked at are a front of all later ones. -/
theorem assembles_get : Assembles C get fun u t => C t ∧ t.Extends u :=
  fun t ht hC => ⟨ht, .refl t, fun _ hu _ => ⟨hC.self ht, hu⟩⟩

/-- An entry that is asked for is in the pool from then on, at the index that is returned. -/
theorem assembles_constant {c : ConstantInfo} (h : ∀ u, u.Sound → C u → c.Bounded u.pool.next) :
    Assembles C (constant c) fun u i => (c, i) ∈ u.pool.entries := by
  intro t ht hC
  refine ⟨⟨ht.intern (h _ ht (hC.self ht)), fun m hm => ?_⟩,
    ⟨t.pool.extends_intern c, List.prefix_rfl⟩, fun u hu _ => hu.pool.subset (t.pool.mem_intern c)⟩
  exact (ht.bootstraps m hm).mono (t.pool.next_le_intern c)

/-- A bootstrap method that is asked for is in the table from then on. Its index is written in two
bytes and is only right while the table is not too long. -/
theorem assembles_bootstrap {m : BootstrapMethod}
    (h : ∀ u, u.Sound → C u → BootstrapBounded u.pool.next m) :
    Assembles C (bootstrap m) fun u i => i < 0x10000 ∧
    (u.bootstraps.length ≤ 0xFFFF → u.bootstraps[i]? = some m) := by
  intro t ht hC
  refine ⟨⟨ht.toSound, fun m' hm' => ?_⟩, ⟨.refl _, List.prefix_append _ _⟩, fun u hu _ => ?_⟩
  · rcases List.mem_append.1 hm' with hm' | hm'
    · exact ht.bootstraps m' hm'
    · rw [List.mem_singleton.1 hm']
      exact h t ht (hC.self ht)
  show min t.bootstraps.length 0xFFFF < 0x10000 ∧
    (_ → u.bootstraps[min t.bootstraps.length 0xFFFF]? = some m)
  refine ⟨by omega, fun hlength => ?_⟩
  obtain ⟨rest, hrest⟩ := hu.bootstraps
  have heq : u.bootstraps = t.bootstraps ++ m :: rest := by
    rw [← hrest]
    exact List.append_assoc _ _ _
  have hlt : t.bootstraps.length < u.bootstraps.length := by
    rw [heq, List.length_append, List.length_cons]
    omega
  rw [Nat.min_eq_left (by omega), heq]
  simp

/-! ## Entries -/

/-- The entry of a class. -/
def PoolBuilder.ClassAt (q : PoolBuilder) (i : Nat) (internal : String) : Prop :=
  ∃ name, (.classRef name, i) ∈ q.entries ∧ (.utf8 internal, name) ∈ q.entries

theorem assembles_utf8 (text : String) :
    Assembles C (utf8 text) fun u i => (.utf8 text, i) ∈ u.pool.entries :=
  assembles_constant fun _ _ _ => trivial

/-- The index of a class entry that is asked for leads to the name of the class. -/
theorem assembles_classRef (internal : String) :
    Assembles C (classRef internal) fun u i => u.pool.ClassAt i internal := by
  refine (assembles_utf8 internal).bind fun name => ?_
  refine (assembles_constant ?_).imp fun u i _ hC hi => ⟨name, hi, hC.2⟩
  exact fun u hu hC => hu.lt_next hC.2

theorem assembles_classNamed (name : String) :
    Assembles C (classNamed name) fun u i => u.pool.ClassAt i (internalName name) :=
  assembles_classRef _

/-- The entry of a name with a descriptor. -/
def PoolBuilder.NameAndTypeAt (q : PoolBuilder) (i : Nat) (name descriptor : String) : Prop :=
  ∃ n d, (.nameAndType n d, i) ∈ q.entries ∧ (.utf8 name, n) ∈ q.entries ∧
    (.utf8 descriptor, d) ∈ q.entries

theorem assembles_nameAndType (name descriptor : String) :
    Assembles C (nameAndType name descriptor) fun u i =>
      u.pool.NameAndTypeAt i name descriptor := by
  refine (assembles_utf8 name).bind fun n => (assembles_utf8 descriptor).bind fun d => ?_
  refine (assembles_constant ?_).imp fun u i _ hC hi => ⟨n, d, hi, hC.1.2, hC.2⟩
  exact fun u hu hC => ⟨hu.lt_next hC.1.2, hu.lt_next hC.2⟩

/-- The entry of a member. -/
def PoolBuilder.MemberAt (q : PoolBuilder) (kind : Nat → Nat → ConstantInfo) (i : Nat)
    (owner name descriptor : String) : Prop :=
  ∃ o m, (kind o m, i) ∈ q.entries ∧ q.ClassAt o owner ∧ q.NameAndTypeAt m name descriptor

/-- The index of a class entry is that of an entry of the pool. -/
theorem PoolBuilder.Sound.classAt_lt {q : PoolBuilder} (h : q.Sound) {i : Nat} {internal : String}
    (hi : q.ClassAt i internal) : i < q.next := by
  obtain ⟨_, hc, _⟩ := hi
  exact h.lt_next hc

/-- No class entry has the index 0, which stands for no class. -/
theorem PoolBuilder.Sound.classAt_ne_zero {q : PoolBuilder} (h : q.Sound) {i : Nat}
    {internal : String} (hi : q.ClassAt i internal) : i ≠ 0 := by
  obtain ⟨_, hc, _⟩ := hi
  exact Nat.ne_zero_of_lt (h.numbered.ge hc)

theorem PoolBuilder.Sound.nameAndTypeAt_lt {q : PoolBuilder} (h : q.Sound) {i : Nat}
    {name descriptor : String} (hi : q.NameAndTypeAt i name descriptor) : i < q.next := by
  obtain ⟨_, _, hc, _⟩ := hi
  exact h.lt_next hc

/-- The index of a reference to a member leads to its owner, its name and its descriptor. -/
theorem assembles_memberRef {kind : Nat → Nat → ConstantInfo}
    (hkind : ∀ limit o m, o < limit → m < limit → (kind o m).Bounded limit)
    (owner name descriptor : String) :
    Assembles C (memberRef kind owner name descriptor) fun u i =>
      u.pool.MemberAt kind i owner name descriptor := by
  refine (assembles_classRef owner).bind fun o =>
    (assembles_nameAndType name descriptor).bind fun m => ?_
  refine (assembles_constant ?_).imp fun u i _ hC hi => ⟨o, m, hi, hC.1.2, hC.2⟩
  exact fun u hu hC => hkind _ _ _ (hu.classAt_lt hC.1.2) (hu.nameAndTypeAt_lt hC.2)

/-- The entry of a method type. -/
def PoolBuilder.MethodTypeAt (q : PoolBuilder) (i : Nat) (descriptor : String) : Prop :=
  ∃ d, (.methodType d, i) ∈ q.entries ∧ (.utf8 descriptor, d) ∈ q.entries

theorem assembles_methodType (descriptor : String) :
    Assembles C (methodType descriptor) fun u i => u.pool.MethodTypeAt i descriptor := by
  refine (assembles_utf8 descriptor).bind fun d => ?_
  refine (assembles_constant ?_).imp fun u i _ hC hi => ⟨d, hi, hC.2⟩
  exact fun u hu hC => hu.lt_next hC.2

/-- The entry of a handle to a static method. -/
def PoolBuilder.StaticHandleAt (q : PoolBuilder) (i : Nat)
    (owner name descriptor : String) : Prop :=
  ∃ m, (.methodHandle invokeStaticKind m, i) ∈ q.entries ∧
    q.MemberAt .methodRef m owner name descriptor

/-- The index of a handle leads to the static method that it is for. -/
theorem assembles_staticHandle (owner name descriptor : String) :
    Assembles C (staticHandle owner name descriptor) fun u i =>
      u.pool.StaticHandleAt i owner name descriptor := by
  have hkind : ∀ limit o m, o < limit → m < limit → (ConstantInfo.methodRef o m).Bounded limit :=
    fun _ _ _ => .intro
  refine (assembles_memberRef hkind owner name descriptor).bind fun m => ?_
  refine (assembles_constant ?_).imp fun u i _ hC hi => ⟨m, hi, hC.2⟩
  intro u hu hC
  obtain ⟨_, _, hmem, _⟩ := hC.2
  exact ⟨by decide, hu.lt_next hmem⟩

end Assembles

end JvmAudit.Assembler
