import JvmAudit.Proofs.Scan.Sites

/-!
# More rules, more violations

A book that grows binds to a set with more rules behind those that were there. A further rule may
take the place of another one as the rule that a use violates, but it never hides a violation: every
search that found something still finds something. The ban of internal runtime classes is asked
last, so it only adds violations. Neither has a say in which classes are looked up, so the missing
classes are the same.

## Main results

* `RuleBook.extends_of_freeze`: what is bound from a book that grows
* `Scanner.scan_agree`: scans that differ in their policies only
* `Scanner.scan_sublist_of_grows`: more rules, or the ban, only add violations
-/

namespace JvmAudit

open Result

/-! ## Bound books that grow -/

/-- The second set has the rules of the first one, and others behind them. -/
structure RuleSet.Extends (set set' : RuleSet) : Prop where
  exact : set.exact <+: set'.exact
  globs : set.globs <+: set'.globs
  annotated : set.annotated <+: set'.annotated

namespace RuleBook

variable {s : ClassSource}

theorem bindingOf_ok (hs : s.Readable) (r : Rule) : ∃ binding, bindingOf s r = .ok binding := by
  have hreason : ∃ reason, r.reasonOn s = .ok reason := by
    unfold Rule.reasonOn
    split
    · next name query _ =>
      obtain ⟨resolution, h⟩ := ClassSource.resolveMember_ok hs r.owner.text query
      exact ⟨_, by rw [h]; rfl⟩
    · obtain ⟨found, h⟩ := hs r.owner.text
      exact ⟨_, by rw [h]; rfl⟩
  obtain ⟨reason, hreason⟩ := hreason
  unfold bindingOf
  rw [hreason]
  split
  · exact ⟨_, rfl⟩
  · split <;> exact ⟨_, rfl⟩

/-- On a class path that can be read, a book can be bound if rules may be dropped. -/
theorem exists_freeze_lenient (hs : s.Readable) (book : RuleBook) :
    ∃ set, book.freeze s false = .ok set := by
  have hrule : ∀ set p, ∃ set', freezeRule s false set p = .ok set' := by
    intro set p
    obtain ⟨binding, h⟩ := bindingOf_ok hs p.rule
    rw [freezeRule_of_ok h]
    cases binding <;> exact ⟨_, rfl⟩
  have hall : ∀ (ps : List PendingRule) set, ∃ set', ps.foldlM (freezeRule s false) set =
      .ok set' := by
    intro ps
    induction ps with
    | nil => exact fun set => ⟨set, rfl⟩
    | cons p ps ih =>
      intro set
      obtain ⟨mid, hmid⟩ := hrule set p
      obtain ⟨set', hset'⟩ := ih mid
      exact ⟨set', by rw [List.foldlM_cons, hmid]; exact hset'⟩
  rw [freeze_eq]
  exact hall book.rules .empty

/-- If a book grows, the rules that are bound from it are those from before and more. -/
theorem extends_of_freeze {book book' : RuleBook} (hr : book.Reachable) (hg : book.Grows book')
    {strict strict' : Bool} {set set' : RuleSet} (h : book.freeze s strict = .ok set)
    (h' : book'.freeze s strict' = .ok set') : set.Extends set' := by
  obtain ⟨more, hmore⟩ := hg.rules_prefix
  have hb := binds_freeze hr.sound h
  have hb' := binds_freeze (Reachable.sound (hr.trans hg)) h'
  refine ⟨?_, ?_, ?_⟩
  · rw [hb.exact, hb'.exact, ← hmore, List.filter_append, List.map_append, ← List.append_assoc]
    exact List.prefix_append _ _
  · rw [hb.globs, hb'.globs, ← hmore, List.filter_append, List.map_append, ← List.append_assoc]
    exact List.prefix_append _ _
  · rw [hb.annotated, hb'.annotated, ← hmore, List.filter_append,
      List.map_append, ← List.append_assoc]
    exact List.prefix_append _ _

end RuleBook

/-! ## Searches that find something too -/

/-- The second search finds something if the first one does. -/
def FindsToo {α β : Type} (first : Option α) (second : Option β) : Prop :=
  first.isSome = true → second.isSome = true

namespace FindsToo

variable {α β γ δ : Type} {a : Option α} {b : Option β}

theorem of_eq_some {b : Option α} (h : ∀ x, a = some x → b = some x) : FindsToo a b := by
  intro ha
  obtain ⟨x, hx⟩ := Option.isSome_iff_exists.1 ha
  rw [h x hx]
  rfl

/-- More is found in the first place or in the second one. -/
theorem orElse {a' : Option α} {b' : Option β} (h : FindsToo a b) (h' : FindsToo a' b') :
    FindsToo (a <|> a') (b <|> b') := by
  intro hfound
  cases b with
  | some y => rfl
  | none =>
    cases a with
    | some x => exact absurd (h rfl) (by simp)
    | none => exact h' hfound

theorem map (h : FindsToo a b) (f : α → γ) (g : β → δ) : FindsToo (a.map f) (b.map g) := by
  intro hfound
  rw [Option.isSome_map] at hfound ⊢
  exact h hfound

theorem bind {f : α → Option β} {g : α → Option γ} (h : ∀ x, FindsToo (f x) (g x)) :
    FindsToo (a.bind f) (a.bind g) := by
  cases a with
  | none => exact id
  | some x => exact h x

end FindsToo

namespace Policy

/-- The second policy has all rules of the first one, and bans what it bans. -/
structure Stricter (p p' : Policy) : Prop where
  rules : p.rules.Extends p'.rules
  ban : p.banInternalRuntime = true → p'.banInternalRuntime = true

variable {p p' : Policy}

/-- If more rules are found for each class, more are found for the classes. -/
theorem firstRule?_findsToo {find find' : String → Option Rule}
    (h : ∀ c, FindsToo (find c) (find' c))
    (classes : List String) : FindsToo (firstRule? find classes) (firstRule? find' classes) := by
  intro hfound
  unfold firstRule? at hfound ⊢
  rw [List.findSome?_isSome_iff] at hfound ⊢
  obtain ⟨c, hc, hsome⟩ := hfound
  exact ⟨c, hc, (h c).map _ _ hsome⟩

namespace Stricter

theorem lookup (h : p.Stricter p') (key : String) :
    FindsToo (p.rules.exact.lookup key) (p'.rules.exact.lookup key) :=
  .of_eq_some fun _ => h.rules.exact.lookup_eq_some

theorem annotated? (h : p.Stricter p') (annotations : List String) :
    FindsToo (p.rules.annotated? annotations) (p'.rules.annotated? annotations) :=
  .of_eq_some fun _ => h.rules.annotated.find?_eq_some

theorem internalHit? (h : p.Stricter p') (name : String) :
    FindsToo (p.internalHit? name) (p'.internalHit? name) := by
  unfold Policy.internalHit?
  cases hban : p.banInternalRuntime with
  | false => simp [FindsToo]
  | true =>
    rw [h.ban hban]
    exact id

theorem typeHit? (h : p.Stricter p') (name : String) (c : ClassFile) :
    FindsToo (p.typeHit? name c) (p'.typeHit? name c) := by
  have hrule : FindsToo (p.typeRule? name) (p'.typeRule? name) :=
    (h.lookup name).orElse (.of_eq_some fun _ => h.rules.globs.find?_eq_some)
  exact ((hrule.orElse (h.annotated? c.annotations)).map _ _).orElse (h.internalHit? name)

theorem fieldRule? (h : p.Stricter p') (owner name : String) :
    FindsToo (p.fieldRule? owner name) (p'.fieldRule? owner name) := by
  -- the rule that the key leads to is the same, so the filter says the same of it
  have hexact : ∀ keep : Rule → Bool,
      FindsToo ((p.rules.member? owner name).filter keep)
          ((p'.rules.member? owner name).filter keep) := by
    refine fun keep => .of_eq_some fun r hr => ?_
    obtain ⟨hlookup, hkeep⟩ := Option.filter_eq_some_iff.1 hr
    exact Option.filter_eq_some_iff.2 ⟨h.rules.exact.lookup_eq_some hlookup, hkeep⟩
  exact (hexact _).orElse (.of_eq_some fun _ => h.rules.globs.find?_eq_some)

/-- A stricter policy matches each use of a member that is matched already, by whatever stage. -/
theorem memberMatch? (h : p.Stricter p') (u : MemberUse) :
    FindsToo (p.memberMatch? u) (p'.memberMatch? u) := by
  have hoverload : FindsToo (p.overloadMatch? u) (p'.overloadMatch? u) :=
    .bind fun _ => firstRule?_findsToo (fun _ => h.lookup _) _
  have hname : FindsToo (p.nameMatch? u) (p'.nameMatch? u) :=
    firstRule?_findsToo (fun _ => h.lookup _) _
  have howner : FindsToo (p.ownerMatch? u) (p'.ownerMatch? u) :=
    firstRule?_findsToo (fun _ => h.lookup _) _
  have hglob : FindsToo (p.globRuleMatch? u) (p'.globRuleMatch? u) :=
    .of_eq_some fun _ => h.rules.globs.findSome?_eq_some
  have hannotated : FindsToo (p.annotatedMatch? u) (p'.annotatedMatch? u) := by
    rw [annotatedMatch?_eq, annotatedMatch?_eq]
    exact .bind fun _ => ((FindsToo.bind fun _ => h.annotated? _).orElse (h.annotated? _)).map _ _
  exact hoverload.orElse (hname.orElse (howner.orElse (hglob.orElse hannotated)))

theorem memberHit? (h : p.Stricter p') (u : MemberUse) :
    FindsToo (p.memberHit? u) (p'.memberHit? u) :=
  ((h.memberMatch? u).map _ _).orElse (.bind fun _ => h.internalHit? _)

end Stricter

/-- The hits of the second policy are related to those of the first one. -/
structure Relates (H : Option Hit → Option Hit → Prop) (p p' : Policy) : Prop where
  none : H .none .none
  type : ∀ name c, H (p.typeHit? name c) (p'.typeHit? name c)
  field : ∀ owner name, H ((p.fieldRule? owner name).map (.rule · owner false))
    ((p'.fieldRule? owner name).map (.rule · owner false))
  member : ∀ u, H (p.memberHit? u) (p'.memberHit? u)

/-- A stricter policy finds something at each place where something was found. -/
theorem Stricter.relates (h : p.Stricter p') : p.Relates FindsToo p' :=
  ⟨id, h.typeHit?, fun owner name => (h.fieldRule? owner name).map _ _, h.memberHit?⟩

theorem relates_true (p p' : Policy) : p.Relates (fun _ _ => True) p' :=
  ⟨trivial, fun _ _ => trivial, fun _ _ => trivial, fun _ => trivial⟩

/-- The ban is asked last, so what was found without it is found with it. -/
theorem relates_ban (rules : RuleSet) :
    (Policy.mk rules false).Relates
      (fun first second => ∀ hit, first = some hit → second = some hit) ⟨rules, true⟩ := by
  have horElse : ∀ (a b c : Option Hit) hit, (a <|> b) = some hit → b = .none →
      (a <|> c) = some hit := by
    rintro a b c hit h rfl
    cases a with
    | none => cases h
    | some x => exact h
  refine ⟨fun _ h => h, fun name c hit h => ?_, fun _ _ _ h => h, fun u hit h => ?_⟩
  · exact horElse _ _ _ hit h rfl
  · exact horElse _ _ _ hit h (Option.bind_eq_none_iff.2 fun _ _ => rfl)

end Policy

/-! ## Scans with different policies -/

namespace ClassFile

/-- All descriptors that are checked can be read. -/
def Checkable (c : ClassFile) (exempt : Suppression) : Prop :=
  ∀ site ∈ c.sites exempt, ∀ d, site.subject ≠ .malformed d

end ClassFile

/-- Where a violation is: the class or member, and the line. -/
def Violation.place (v : Violation) : String × Nat := (v.location, v.line)

namespace Scanner

variable {source : ClassSource} {exempt : Suppression} {p p' : Policy}
  {H : Option Hit → Option Hit → Prop}

/-- The policy has no say in what is looked up, so the checks fail alike and miss the same
classes. -/
theorem check_agree (h : p.Relates H p') (className : String) (site : Site) :
    Agree (fun f f' => f.missing = f'.missing ∧ H f.hit f'.hit)
      ((Scanner.mk p source exempt).check className site)
      ((Scanner.mk p' source exempt).check className site) := by
  rw [check_eq, check_eq]
  cases site.subject with
  | type name =>
    simp only [checkType_eq]
    cases source.load name with
    | error e => exact .error e
    | ok found =>
      cases found with
      | none => exact .ok ⟨rfl, h.none⟩
      | some c => exact .ok ⟨rfl, h.type name c⟩
  | fieldDecl owner name => exact .ok ⟨rfl, h.field owner name⟩
  | member owner name descriptor =>
    simp only [checkMember_eq]
    cases source.resolveMember owner (memberQuery name descriptor) with
    | error e => exact .error e
    | ok resolution =>
      cases resolution with
      | unresolvable owner => exact .ok ⟨rfl, h.none⟩
      | resolved lineage declarer missing => exact .ok ⟨rfl, h.member _⟩
  | malformed d => exact .error _

/-- A check fails because of a descriptor or because a class cannot be loaded. -/
theorem check_error {s : Scanner} {className : String} {site : Site} {e : ClasspathError}
    (h : s.check className site = .error e) :
    (∃ d, site.subject = .malformed d) ∨ ∃ name, s.source.load name = .error e := by
  rw [check_eq] at h
  cases hsubject : site.subject with
  | malformed d => exact .inl ⟨d, rfl⟩
  | fieldDecl owner name =>
    rw [hsubject] at h
    cases h
  | type name =>
    rw [hsubject] at h
    dsimp only at h
    rw [checkType_eq, map_eq_error] at h
    exact .inr ⟨name, h⟩
  | member owner name descriptor =>
    rw [hsubject] at h
    dsimp only at h
    rw [checkMember_eq, map_eq_error] at h
    exact .inr (ClassSource.exists_of_resolveMember_error h)

/-- A site that is not malformed can be checked if all classes can be read. -/
theorem check_ok (hread : source.Readable) (className : String) {site : Site}
    (hw : ∀ d, site.subject ≠ .malformed d) :
    ∃ finding, (Scanner.mk p source exempt).check className site = .ok finding := by
  cases h : (Scanner.mk p source exempt).check className site with
  | ok finding => exact ⟨finding, rfl⟩
  | error e =>
    rcases check_error h with ⟨d, hd⟩ | ⟨name, hload⟩
    · exact absurd hd (hw d)
    · exact absurd hload (hread.load_ne_error name e)

/-- Elements with related findings: what the first findings give is among what the second ones give,
in its order. -/
theorem filterMap_zip_sublist {α β γ : Type} {R : β → β → Prop} {g : α × β → Option γ}
    (hg : ∀ a b b', R b b' → ∀ x, g (a, b) = some x → g (a, b') = some x) {l : List α}
    {bs bs' : List β}
    (h : List.Forall₂ R bs bs') : ((l.zip bs).filterMap g).Sublist ((l.zip bs').filterMap g) := by
  induction h generalizing l with
  | nil => exact .refl _
  | @cons b b' bs bs' hb _ ih =>
    cases l with
    | nil => exact .refl _
    | cons a l =>
      rw [List.zip_cons_cons, List.zip_cons_cons, List.filterMap_cons, List.filterMap_cons]
      cases hx : g (a, b) with
      | some x =>
        rw [hg a b b' hb x hx]
        exact ih.cons_cons x
      | none =>
        cases g (a, b') with
        | none => exact ih
        | some y => exact ih.cons y

/-- The violations that are reported for the findings at these sites. -/
def reported (c : ClassFile) (sites : List Site) (findings : List Finding) : List Violation :=
  (sites.zip findings).filterMap fun (site, f) => f.hit.map (violation c site)

/-- Scans that differ in their policies only fail alike, or succeed with related findings, site by
site. -/
theorem scan_agree (source : ClassSource) (exempt : Suppression) (h : p.Relates H p')
    (c : ClassFile) :
    Agree (fun scan scan' => scan.missing = scan'.missing ∧
        ∃ findings findings', List.Forall₂ (fun f f' => H f.hit f'.hit) findings findings' ∧
          scan.violations = reported c (c.sites exempt) findings ∧
          scan'.violations = reported c (c.sites exempt) findings')
      ((Scanner.mk p source exempt).scan c) ((Scanner.mk p' source exempt).scan c) := by
  rw [scan_eq, scan_eq]
  refine (Agree.mapM fun site _ => check_agree h c.name site).map fun findings findings' hall =>
    ⟨?_, ?_⟩
  · have hmissing : findings.map (·.missing) = findings'.map (·.missing) := by
      rw [← List.forall₂_eq_eq_eq, List.forall₂_map_left_iff, List.forall₂_map_right_iff]
      exact hall.imp fun _ _ hf => hf.1
    simp only [classScan, List.flatMap_def, hmissing]
  · exact ⟨findings, findings', hall.imp fun _ _ hf => hf.2, rfl, rfl⟩

/-- Scans that succeed with related policies. -/
theorem scan_related (hp : p.Relates H p') {c : ClassFile} {scan scan' : ClassScan}
    (h : (Scanner.mk p source exempt).scan c = .ok scan)
    (h' : (Scanner.mk p' source exempt).scan c = .ok scan') :
    scan.missing = scan'.missing ∧
      ∃ findings findings', List.Forall₂ (fun f f' => H f.hit f'.hit) findings findings' ∧
        scan.violations = reported c (c.sites exempt) findings ∧
        scan'.violations = reported c (c.sites exempt) findings' := by
  have hagree := scan_agree source exempt hp c
  rw [h, h'] at hagree
  cases hagree with
  | ok hscans => exact hscans

/-- A stricter policy reports every place that was reported. -/
theorem places_sublist (hp : p.Stricter p') {c : ClassFile} {scan scan' : ClassScan}
    (h : (Scanner.mk p source exempt).scan c = .ok scan)
    (h' : (Scanner.mk p' source exempt).scan c = .ok scan') :
    (scan.violations.map (·.place)).Sublist (scan'.violations.map (·.place)) := by
  obtain ⟨_, findings, findings', hall, hv, hv'⟩ := scan_related hp.relates h h'
  rw [hv, hv', reported, reported, List.map_filterMap, List.map_filterMap]
  refine filterMap_zip_sublist (fun site f f' hf place hplace => ?_) hall
  -- which rule is violated may change, the place of a violation is that of its site
  obtain ⟨v, hvio, rfl⟩ := Option.map_eq_some_iff.1 hplace
  obtain ⟨hit, hhit, rfl⟩ := Option.map_eq_some_iff.1 hvio
  obtain ⟨hit', hhit'⟩ := Option.isSome_iff_exists.1 (hf (by rw [hhit]; rfl))
  simp only [hhit', Option.map_some]
  rfl

/-- The ban of internal runtime classes leaves the violations that were reported without it as they
are. -/
theorem violations_sublist_ban {rules : RuleSet} {c : ClassFile} {scan scan' : ClassScan}
    (h : (Scanner.mk ⟨rules, false⟩ source exempt).scan c = .ok scan)
    (h' : (Scanner.mk ⟨rules, true⟩ source exempt).scan c = .ok scan') :
    scan.violations.Sublist scan'.violations := by
  obtain ⟨_, findings, findings', hall, hv, hv'⟩ := scan_related (Policy.relates_ban rules) h h'
  rw [hv, hv', reported, reported]
  refine filterMap_zip_sublist (fun site f f' hf v hvio => ?_) hall
  obtain ⟨hit, hhit, rfl⟩ := Option.map_eq_some_iff.1 hvio
  simp only [hf hit hhit, Option.map_some]

/-- If a descriptor that is checked cannot be read, all scans of the class fail with one failure,
whatever the policy. -/
theorem exists_scan_error (hread : source.Readable) {c : ClassFile} (hc : ¬c.Checkable exempt) :
    ∃ e, ∀ p, (Scanner.mk p source exempt).scan c = .error e := by
  have hmalformed : ∃ site ∈ c.sites exempt, ∃ d, site.subject = .malformed d := by
    simpa [ClassFile.Checkable] using hc
  have herror : ∀ p, ∃ e, (Scanner.mk p source exempt).scan c = .error e := by
    intro p
    obtain ⟨_, _, d, _, hscan⟩ := scan_of_malformed (s := ⟨p, source, exempt⟩)
      (fun site _ hw => check_ok hread c.name hw) hmalformed
    exact ⟨_, hscan⟩
  obtain ⟨e, he⟩ := herror ⟨.empty, false⟩
  refine ⟨e, fun p => ?_⟩
  have hagree := scan_agree source exempt (Policy.relates_true p ⟨.empty, false⟩) c
  rw [he] at hagree
  cases hscan : (Scanner.mk p source exempt).scan c with
  | error e' =>
    rw [hscan] at hagree
    cases hagree
    rfl
  | ok scan =>
    rw [hscan] at hagree
    cases hagree

/-- A class without malformed sites can be scanned if all classes can be read. -/
theorem exists_scan_ok (hread : source.Readable) {c : ClassFile} (hc : c.Checkable exempt)
    (p : Policy) :
    ∃ scan, (Scanner.mk p source exempt).scan c = .ok scan := by
  have hcheck : ∀ site ∈ c.sites exempt, ∃ finding, (Scanner.mk p source exempt).check c.name site =
      .ok finding :=
    fun site hsite => check_ok hread c.name (hc site hsite)
  have : Nonempty Finding := ⟨none, []⟩
  choose! find hfind using hcheck
  exact ⟨_, scan_of_check (s := ⟨p, source, exempt⟩) hfind⟩

/-- **More rules, more violations.** A book and one that it grows into can both be bound to a class
path that can be read. If the descriptors of a class can be read, its scans succeed with any policy;
with the rules of the second book every place is reported that is reported with those of the first
one, in the same order. The ban of internal runtime classes only adds violations. The missing
classes are the same whatever the policy.

If a descriptor cannot be read, the scans of the class fail alike. -/
theorem scan_sublist_of_grows {book book' : RuleBook} (hbook : book.Reachable)
    (hgrows : book.Grows book') {path : ClassSource} (hpath : path.Readable) :
    ∃ rules rules', book.freeze path false = .ok rules ∧ book'.freeze path false = .ok rules' ∧
      ∀ source : ClassSource, source.Readable → ∀ (exempt : Suppression) (c : ClassFile),
        (c.Checkable exempt → ∃ found : Policy → ClassScan,
          (∀ p, (Scanner.mk p source exempt).scan c = .ok (found p)) ∧
          (∀ ban, ((found ⟨rules, ban⟩).violations.map (·.place)).Sublist
            ((found ⟨rules', ban⟩).violations.map (·.place))) ∧
          (∀ set, (found ⟨set, false⟩).violations.Sublist (found ⟨set, true⟩).violations) ∧
          ∀ p p', (found p).missing = (found p').missing) ∧
        (¬c.Checkable exempt → ∃ e, ∀ p, (Scanner.mk p source exempt).scan c = .error e) := by
  obtain ⟨rules, hrules⟩ := book.exists_freeze_lenient hpath
  obtain ⟨rules', hrules'⟩ := book'.exists_freeze_lenient hpath
  refine ⟨rules, rules', hrules, hrules', fun source hread exempt c =>
    ⟨fun hc => ?_, exists_scan_error hread⟩⟩
  choose found hfound using exists_scan_ok hread hc
  refine ⟨found, hfound, fun ban => ?_, fun set => ?_, fun p p' => ?_⟩
  · have hstricter : (Policy.mk rules ban).Stricter ⟨rules', ban⟩ :=
      ⟨RuleBook.extends_of_freeze hbook hgrows hrules hrules', id⟩
    exact places_sublist hstricter (hfound _) (hfound _)
  · exact violations_sublist_ban (hfound _) (hfound _)
  · exact (scan_related (Policy.relates_true p p') (hfound p) (hfound p')).1

end Scanner

/-! ## A pattern before a rule about an overload -/

namespace InheritedCall

/-- The pattern alone. -/
def patternBook : RuleBook := (RuleBook.empty.run (RuleBook.addText "rules" "lib.*#run")).2

/-- The pattern, and then the rule about the overload, which takes its place. -/
def bothBook : RuleBook := (patternBook.run (RuleBook.addText "more" "lib.Base#run()")).2

theorem scan_sublist_of_grows_caller :
    ∃ (rules rules' : RuleSet) (found : Policy → ClassScan),
      patternBook.freeze source false = .ok rules ∧ bothBook.freeze source false = .ok rules' ∧
      (∀ p, (Scanner.mk p source .empty).scan caller = .ok (found p)) ∧
      ((found ⟨rules, false⟩).violations.map (·.place)).Sublist
        ((found ⟨rules', false⟩).violations.map (·.place)) ∧
      (found ⟨rules, false⟩).violations.Sublist (found ⟨rules, true⟩).violations ∧
      (found ⟨rules, false⟩).missing = (found ⟨rules', true⟩).missing := by
  have hbook : patternBook.Reachable := .addText .refl _ _
  have hgrows : patternBook.Grows bothBook := .addText .refl _ _
  have hcaller : caller.Checkable .empty := by
    unfold ClassFile.Checkable
    rw [sites_caller]
    simp
  obtain ⟨rules, rules', h, h', hscan⟩ := Scanner.scan_sublist_of_grows hbook hgrows readable_source
  obtain ⟨found, hfound, hplaces, hban, hmissing⟩ :=
    (hscan source readable_source .empty caller).1 hcaller
  exact ⟨rules, rules', found, h, h', hfound, hplaces false, hban rules, hmissing _ _⟩

end InheritedCall

end JvmAudit
