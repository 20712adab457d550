import JvmAudit.Proofs.ClassFile.Lines
import JvmAudit.Proofs.Scan.Precedence

/-!
# What a scan reports

What a use violates, said without an order (`Scanner.Offends`), and that a scan reports exactly the
sites that violate something: one violation for each of them, in the order of the sites.

## Main results

* `Scanner.exists_check`: the check of a site gives a hit iff the site violates something
* `Scanner.scan_reports_sites`: the violations of a scan
-/

namespace JvmAudit

/-! ## Hits -/

namespace Policy

variable {p : Policy}

/-- A class is hit by a rule about it, by one about its annotations, or as an internal class. -/
theorem finds_typeHit? (hs : p.rules.Sound) {name : String} (hn : '#' ∉ name.toList)
    (c : ClassFile) :
    Finds (p.typeHit? name c) fun hit =>
      (∃ r, ((r ∈ p.rules.rules ∧ r.target = .type ∧ r.owner.accepts name = true) ∨
        (r ∈ p.rules.annotated ∧ ∃ a ∈ c.annotations, r.owner.accepts a = true)) ∧
          .rule r name false = hit) ∨
      (p.banInternalRuntime = true ∧ isInternalRuntime name = true) ∧ .internalRuntime name = hit :=
  (((finds_typeRule? hs hn).orElse (p.rules.finds_annotated? c.annotations)).map
    (Hit.rule · name false)).orElse
    (p.finds_internalHit? name)

theorem finds_memberHit? (hs : p.rules.Sound) {u : MemberUse}
    (hl : ∀ c ∈ u.lineageNames, '#' ∉ c.toList) (ho : ∀ c ∈ u.owners, '#' ∉ c.toList) :
    Finds (p.memberHit? u) fun hit =>
      (∃ m : Rule × String, ((m.1 ∈ p.rules.exactRules ∧ u.Spells m.1 m.2) ∨
        (m.1 ∈ p.rules.rules ∧ u.Applies m.1 m.2)) ∧ .rule m.1 m.2 u.onMethod = hit) ∨
      ∃ holder, u.holder? = some holder ∧
        (p.banInternalRuntime = true ∧ isInternalRuntime holder.name = true) ∧
          .internalRuntime holder.name = hit := by
  have hban : Finds (u.holder?.bind fun holder => p.internalHit? holder.name) fun hit =>
      ∃ holder, u.holder? = some holder ∧
        (p.banInternalRuntime = true ∧ isInternalRuntime holder.name = true) ∧
        .internalRuntime holder.name = hit :=
          Finds.bind fun holder _ => p.finds_internalHit? holder.name
  exact ((finds_memberMatch? hs hl ho).map fun m => Hit.rule m.1 m.2 u.onMethod).orElse hban

end Policy

namespace Scanner

variable {s : Scanner}

/-- What a use violates. -/
inductive Offends (s : Scanner) : Subject → Hit → Prop
  /-- A rule about the class, or a pattern for classes. -/
  | type {name : String} {c : ClassFile} {r : Rule} :
      s.source.load name = .ok (some c) → r ∈ s.policy.rules.rules → r.target = .type →
      r.owner.accepts name = true → Offends s (.type name) (.rule r name false)
  /-- A rule about an annotation of the class. -/
  | annotated {name annotation : String} {c : ClassFile} {r : Rule} :
      s.source.load name = .ok (some c) → r ∈ s.policy.rules.rules → r.target = .annotated →
      annotation ∈ c.annotations → r.owner.accepts annotation = true →
      Offends s (.type name) (.rule r name false)
  /-- The ban of internal runtime classes. -/
  | internal {name : String} {c : ClassFile} :
      s.source.load name = .ok (some c) → s.policy.banInternalRuntime = true →
        isInternalRuntime name = true →
      Offends s (.type name) (.internalRuntime name)
  /-- A rule about the field that is declared. -/
  | fieldDecl {owner name : String} {r : Rule} :
      r ∈ s.policy.rules.rules → r.target = .member name → r.owner.accepts owner = true →
      Offends s (.fieldDecl owner name) (.rule r owner false)
  /-- A rule that applies to the member. -/
  | member {owner name className : String} {descriptor : Option String} {lineage : List ClassFile}
    {declarer : Option Nat} {missing : List String} {r : Rule} :
      s.source.resolveMember owner (memberQuery name descriptor) =
        .ok (.resolved lineage declarer missing) →
      r ∈ s.policy.rules.rules →
        (useOf owner name descriptor lineage declarer).Applies r className →
      Offends s (.member owner name descriptor) (.rule r className descriptor.isSome)
  /-- A rule about one class that gives the text of the member, should the name have a
  parenthesis. -/
  | memberText {owner name className : String} {descriptor : Option String}
    {lineage : List ClassFile} {declarer : Option Nat} {missing : List String} {r : Rule} :
      s.source.resolveMember owner (memberQuery name descriptor) =
        .ok (.resolved lineage declarer missing) →
      r ∈ s.policy.rules.exactRules →
        (useOf owner name descriptor lineage declarer).Spells r className →
      Offends s (.member owner name descriptor) (.rule r className descriptor.isSome)
  /-- The ban of internal runtime classes, for the class that holds the member. -/
  | memberInternal {owner name : String} {descriptor : Option String} {lineage : List ClassFile}
    {declarer : Option Nat} {missing : List String} {holder : ClassFile} :
      s.source.resolveMember owner (memberQuery name descriptor) =
        .ok (.resolved lineage declarer missing) →
      (useOf owner name descriptor lineage declarer).holder? = some holder →
      s.policy.banInternalRuntime = true → isInternalRuntime holder.name = true →
      Offends s (.member owner name descriptor) (.internalRuntime holder.name)

/-- A class by whose name a use is matched. -/
def Involves (s : Scanner) : Subject → String → Prop
  | .type name, className => className = name
  | .fieldDecl owner _, className => className = owner
  | .member owner name descriptor, className =>
    className = owner ∨ ∃ lineage declarer missing,
      s.source.resolveMember owner (memberQuery name descriptor) =
        .ok (.resolved lineage declarer missing) ∧
        className ∈ lineage.map (·.name)
  | .malformed _, _ => False

/-! ## One site -/

/-- A use of a class can be checked, and is found if it offends. -/
theorem exists_checkType (hs : s.policy.rules.Sound) (hread : s.source.Readable) {name : String}
    (hn : '#' ∉ name.toList) :
    ∃ finding, s.checkType name = .ok finding ∧ Finds finding.hit (s.Offends (.type name)) := by
  obtain ⟨found, hload⟩ := hread name
  rw [checkType_eq, hload]
  cases found with
  | none =>
    refine ⟨_, rfl, .of_iff fun hit => ⟨nofun, ?_⟩⟩
    -- a class that is missing violates nothing
    rintro (⟨h, _⟩ | ⟨h, _⟩ | ⟨h, _⟩) <;> simp [hload] at h
  | some c =>
    refine ⟨_, rfl, (Policy.finds_typeHit? hs hn c).congr fun hit => ?_⟩
    constructor
    · rintro (⟨r, ⟨hr, ht, ha⟩ | ⟨hr, a, ha, hacc⟩, rfl⟩ | ⟨⟨hban, hint⟩, rfl⟩)
      · exact .type hload hr ht ha
      · obtain ⟨hr, ht⟩ := hs.mem_annotated_iff.1 hr
        exact .annotated hload hr ht ha hacc
      · exact .internal hload hban hint
    · intro h
      cases h with
      | type _ hr ht ha => exact .inl ⟨_, .inl ⟨hr, ht, ha⟩, rfl⟩
      | annotated h hr ht ha hacc =>
        rw [hload] at h
        cases h
        exact .inl ⟨_, .inr ⟨hs.mem_annotated_iff.2 ⟨hr, ht⟩, _, ha, hacc⟩, rfl⟩
      | internal _ hban hint => exact .inr ⟨⟨hban, hint⟩, rfl⟩

/-- A use of a member can be checked, and is found if it offends. -/
theorem exists_checkMember (hs : s.policy.rules.Sound) (hread : s.source.Readable)
    {owner name : String} {descriptor : Option String}
    (hn : ∀ c, s.Involves (.member owner name descriptor) c → '#' ∉ c.toList) :
    ∃ finding, s.checkMember owner name descriptor = .ok finding ∧
      Finds finding.hit (s.Offends (.member owner name descriptor)) := by
  obtain ⟨found, hload⟩ := hread owner
  cases found with
  | none =>
    have hresolve := ClassSource.resolveMember_of_load_none hload (memberQuery name descriptor)
    rw [checkMember_eq, hresolve]
    refine ⟨_, rfl, .of_iff fun hit => ⟨nofun, ?_⟩⟩
    intro h
    cases h with
    | member h _ _ => simp [hresolve] at h
    | memberText h _ _ => simp [hresolve] at h
    | memberInternal h _ _ _ => simp [hresolve] at h
  | some c =>
    obtain ⟨lineage, declarer, missing, hresolve⟩ :=
      ClassSource.resolveMember_of_load hread hload (memberQuery name descriptor)
    have hlineage : ∀ c ∈ (useOf owner name descriptor lineage declarer).lineageNames,
        '#' ∉ c.toList := fun c hc =>
      hn c (.inr ⟨lineage, declarer, missing, hresolve, hc⟩)
    have howners : ∀ c ∈ (useOf owner name descriptor lineage declarer).owners, '#' ∉ c.toList := by
      intro c hc
      rcases owners_useOf hc with rfl | ⟨k, hk, rfl⟩
      · exact hn _ (.inl rfl)
      · exact hlineage _ (List.mem_map_of_mem hk)
    refine ⟨_, checkMember_of_resolved hresolve,
      (Policy.finds_memberHit? hs hlineage howners).congr fun hit => ?_⟩
    constructor
    · rintro (⟨⟨r, c⟩, ⟨hr, ha⟩ | ⟨hr, ha⟩, rfl⟩ | ⟨holder, hh, ⟨hban, hint⟩, rfl⟩)
      · exact .memberText hresolve hr ha
      · exact .member hresolve hr ha
      · exact .memberInternal hresolve hh hban hint
    · intro h
      cases h with
      | member h hr ha =>
        rw [hresolve] at h
        cases h
        exact .inl ⟨(_, _), .inr ⟨hr, ha⟩, rfl⟩
      | memberText h hr ha =>
        rw [hresolve] at h
        cases h
        exact .inl ⟨(_, _), .inl ⟨hr, ha⟩, rfl⟩
      | memberInternal h hh hban hint =>
        rw [hresolve] at h
        cases h
        exact .inr ⟨_, hh, ⟨hban, hint⟩, rfl⟩

theorem finds_fieldDecl (hs : s.policy.rules.Sound) {owner name : String}
    (hn : '#' ∉ owner.toList) :
    Finds ((s.policy.fieldRule? owner name).map (.rule · owner false))
      (s.Offends (.fieldDecl owner name)) := by
  refine ((Policy.finds_fieldRule? hs hn).map (Hit.rule · owner false)).congr fun hit => ?_
  constructor
  · rintro ⟨r, ⟨hr, ht, ha⟩, rfl⟩
    exact .fieldDecl hr ht ha
  · rintro ⟨⟩
    exact ⟨_, ⟨‹_›, ‹_›, ‹_›⟩, rfl⟩

/-- The check of a site succeeds, and gives a hit iff the site violates something. -/
theorem exists_check (hs : s.policy.rules.Sound) (hread : s.source.Readable)
    (className : String) {site : Site}
    (hn : ∀ c, s.Involves site.subject c → '#' ∉ c.toList) (hw : ∀ d, site.subject ≠ .malformed d) :
    ∃ finding, s.check className site = .ok finding ∧
    Finds finding.hit (s.Offends site.subject) := by
  rw [check_eq]
  cases hsubject : site.subject with
  | type name =>
    rw [hsubject] at hn
    exact exists_checkType hs hread (hn name rfl)
  | fieldDecl owner name =>
    rw [hsubject] at hn
    exact ⟨_, rfl, finds_fieldDecl hs (hn owner rfl)⟩
  | member owner name descriptor =>
    rw [hsubject] at hn
    exact exists_checkMember hs hread hn
  | malformed d => exact absurd hsubject (hw d)

end Scanner

/-! ## The sites of a class -/

theorem Subject.ofSymbol_ne_malformed (symbol : Symbol) (d : String) :
    ofSymbol symbol ≠ .malformed d := by
  cases symbol <;> simp [ofSymbol]

namespace ClassFile

variable {c : ClassFile} {exempt : Suppression}

/-- The descriptors of the members that are checked. -/
def descriptors (c : ClassFile) (exempt : Suppression) : List String :=
  (c.fields.filter (!exempt.exempts ·.annotations)).map (·.descriptor) ++
    (c.methods.filter (!exempt.exempts ·.annotations)).map (·.descriptor)

/-- The classes of a descriptor: of its parameters, then of its result. -/
def typesIn (descriptor : String) : List String := (descriptorClasses? descriptor).getD []

theorem ofDescriptor_of_isSome {d : String} (h : (descriptorClasses? d).isSome) :
    Subject.ofDescriptor d = (typesIn d).map .type := by
  obtain ⟨names, hnames⟩ := Option.isSome_iff_exists.1 h
  simp [Subject.ofDescriptor, typesIn, hnames]

theorem malformed_mem_ofDescriptor {d e : String} :
    Subject.malformed e ∈ Subject.ofDescriptor d ↔ d = e ∧ descriptorClasses? d = none := by
  unfold Subject.ofDescriptor
  cases descriptorClasses? d with
  | none => simp [eq_comm]
  | some names => simp

/-- The sites, in order, of a class whose descriptors can be read. -/
theorem sites_eq (hc : exempt.exempts c.annotations = false)
    (hd : ∀ d ∈ c.descriptors exempt, (descriptorClasses? d).isSome) :
    c.sites exempt =
      (c.superClass.toList ++ c.interfaces ++ c.annotations).map
        (fun name => ⟨c.name, c.classLine, .type name⟩) ++
      (c.fields.filter (!exempt.exempts ·.annotations)).flatMap (fun f =>
        (.fieldDecl c.name f.name :: (typesIn f.descriptor ++ f.annotations).map .type).map
          fun subject => ⟨c.name ++ "#" ++ f.name, c.classLine, subject⟩) ++
      (c.methods.filter (!exempt.exempts ·.annotations)).flatMap fun m =>
        (typesIn m.descriptor ++ m.exceptions ++ m.annotations).map
          (fun name => ⟨c.name ++ "#" ++ m.display, m.firstLine.getD c.classLine, .type name⟩) ++
        m.code.toList.flatMap fun code => code.references.map fun r =>
          ⟨c.name ++ "#" ++ m.display, (code.lineAt r.offset).getD 0, .ofSymbol r.symbol⟩ := by
  have hfield : ∀ f ∈ c.fields.filter (!exempt.exempts ·.annotations), c.fieldSites f =
      (.fieldDecl c.name f.name :: (typesIn f.descriptor ++ f.annotations).map .type).map
        fun subject => ⟨c.name ++ "#" ++ f.name, c.classLine, subject⟩ := by
    intro f hf
    have hsome := hd f.descriptor (List.mem_append_left _ (List.mem_map_of_mem hf))
    simp [fieldSites, memberLocation, ofDescriptor_of_isSome hsome]
  have hmethod : ∀ m ∈ c.methods.filter (!exempt.exempts ·.annotations), c.methodSites m =
      (typesIn m.descriptor ++ m.exceptions ++ m.annotations).map
        (fun name => ⟨c.name ++ "#" ++ m.display, m.firstLine.getD c.classLine, .type name⟩) ++
      m.code.toList.flatMap fun code => code.references.map fun r =>
        ⟨c.name ++ "#" ++ m.display, (code.lineAt r.offset).getD 0, .ofSymbol r.symbol⟩ := by
    intro m hm
    have hsome := hd m.descriptor (List.mem_append_right _ (List.mem_map_of_mem hm))
    cases hcode : m.code with
    | none =>
      simp [methodSites, memberLocation, Function.comp_def, hcode, ofDescriptor_of_isSome hsome]
    | some code =>
      simp [methodSites, bodySites, memberLocation, Function.comp_def, hcode,
        ofDescriptor_of_isSome hsome]
  simp only [sites, hc, Bool.false_eq_true, if_false, List.flatMap_congr hfield,
    List.flatMap_congr hmethod, headerSites, supertypes]

/-- The descriptors that cannot be read are sites too. -/
theorem malformed_mem_sites (hc : exempt.exempts c.annotations = false) {d : String} :
    (∃ site ∈ c.sites exempt, site.subject = .malformed d) ↔
      d ∈ c.descriptors exempt ∧ descriptorClasses? d = none := by
  have hsubject : (∃ site ∈ c.sites exempt, site.subject = .malformed d) ↔
      (.malformed d) ∈ (c.sites exempt).map (·.subject) := List.mem_map.symm
  have hfield : ∀ f, (.malformed d) ∈ (c.fieldSites f).map (·.subject) ↔
      f.descriptor = d ∧ descriptorClasses? f.descriptor = none := by
    intro f
    rw [← malformed_mem_ofDescriptor]
    simp [fieldSites, Function.comp_def]
  have hmethod : ∀ m, (.malformed d) ∈ (c.methodSites m).map (·.subject) ↔
      m.descriptor = d ∧ descriptorClasses? m.descriptor = none := by
    intro m
    rw [← malformed_mem_ofDescriptor]
    cases hcode : m.code with
    | none => simp [methodSites, Function.comp_def, hcode]
    | some code =>
      simp [methodSites, bodySites, Function.comp_def, hcode, Subject.ofSymbol_ne_malformed]
  have hheader : ¬∃ site ∈ c.headerSites, site.subject = .malformed d := by
    rintro ⟨site, hsite, h⟩
    obtain ⟨name, _, rfl⟩ := List.mem_map.1 hsite
    cases h
  rw [hsubject]
  simp only [sites, hc, Bool.false_eq_true, if_false, List.map_append, List.map_flatMap,
    List.mem_append, List.mem_flatMap, hfield, hmethod, descriptors, List.mem_map]
  constructor
  · rintro ((h | ⟨f, hf, rfl, hn⟩) | ⟨m, hm, rfl, hn⟩)
    · exact absurd h hheader
    · exact ⟨.inl ⟨f, hf, rfl⟩, hn⟩
    · exact ⟨.inr ⟨m, hm, rfl⟩, hn⟩
  · rintro ⟨⟨f, hf, rfl⟩ | ⟨m, hm, rfl⟩, hn⟩
    · exact .inl (.inr ⟨f, hf, rfl, hn⟩)
    · exact .inr ⟨m, hm, rfl, hn⟩

end ClassFile

/-! ## The scan -/

namespace Scanner

variable {s : Scanner}

/-- A scan whose checks all succeed. -/
theorem scan_of_check {c : ClassFile} {find : Site → Finding}
    (h : ∀ site ∈ c.sites s.suppression, s.check c.name site = .ok (find site)) :
    s.scan c =
      .ok ⟨(c.sites s.suppression).filterMap fun site => (find site).hit.map (violation c site),
      sortedNames ((c.sites s.suppression).flatMap fun site => (find site).missing)⟩ := by
  rw [scan_eq, Result.mapM_eq_ok_map h]
  show Except.ok (classScan c _ _) = Except.ok _
  unfold classScan
  rw [← List.map_prod_left_eq_zip, List.filterMap_map, List.flatMap_map]
  rfl

/-- If only descriptors can make a check fail and one of them does, the scan fails because of a
descriptor. -/
theorem scan_of_malformed {c : ClassFile}
    (hcheck : ∀ site ∈ c.sites s.suppression, (∀ d, site.subject ≠ .malformed d) →
      ∃ finding, s.check c.name site = .ok finding)
    (h : ∃ site ∈ c.sites s.suppression, ∃ d, site.subject = .malformed d) :
    ∃ site ∈ c.sites s.suppression, ∃ d, site.subject = .malformed d ∧
      s.scan c = .error (.classFile c.name (.invalidDescriptor d)) := by
  have hmalformed : ∀ site d, site.subject = .malformed d →
      s.check c.name site = .error (.classFile c.name (.invalidDescriptor d)) := by
    intro site d hd
    rw [check_eq, hd]
  rw [scan_eq]
  cases hmap : (c.sites s.suppression).mapM (s.check c.name) with
  | ok findings =>
    obtain ⟨site, hsite, d, hd⟩ := h
    obtain ⟨finding, hok⟩ := Result.ok_of_mem_mapM hmap hsite
    rw [hmalformed site d hd] at hok
    cases hok
  | error e =>
    obtain ⟨front, stop, back, hsplit, _, herror⟩ := Result.mapM_eq_error.1 hmap
    have hstop : stop ∈ c.sites s.suppression := by simp [hsplit]
    by_cases hw : ∃ d, stop.subject = .malformed d
    · obtain ⟨d, hd⟩ := hw
      rw [hmalformed stop d hd] at herror
      cases herror
      exact ⟨stop, hstop, d, hd, rfl⟩
    · obtain ⟨finding, hok⟩ := hcheck stop hstop fun d hd => hw ⟨d, hd⟩
      rw [hok] at herror
      cases herror

/-- **What a scan reports.** On a class path that can be read, with a bound rule book, a class that
is not exempt is checked at its supertypes and its annotations, then field by field and method by
method without those that are exempt. Each site that violates something gives one violation, in that
order, and no other site gives any. A violation has the class, its source file, and the line and the
location of the site.

What stands at the class or at a field has the first line of the class, what stands at a method has
the first line of the method, and a symbol in a body has the line of its offset.

A scan fails if a descriptor cannot be read, and for no other reason. -/
theorem scan_reports_sites {c : ClassFile} (hc : s.suppression.exempts c.annotations = false)
    (hrules : s.policy.rules.Frozen) (hread : s.source.Readable)
    (hnames : ∀ site ∈ c.sites s.suppression, ∀ name, s.Involves site.subject name →
      '#' ∉ name.toList) :
    ((∀ d ∈ c.descriptors s.suppression, (descriptorClasses? d).isSome) →
      (∃ (classLine : Nat) (methodLine : MethodDecl → Nat) (lineAt : Code → Nat → Nat),
        IsFirstLine c.bodyLines 0 classLine ∧
        (∀ m, IsFirstLine m.bodyLines classLine (methodLine m)) ∧
        (∀ code offset, Code.IsLineAt code offset (lineAt code offset)) ∧
        c.sites s.suppression =
          (c.superClass.toList ++ c.interfaces ++ c.annotations).map
            (fun name => ⟨c.name, classLine, .type name⟩) ++
          (c.fields.filter (!s.suppression.exempts ·.annotations)).flatMap (fun f =>
            (.fieldDecl c.name f.name ::
              (ClassFile.typesIn f.descriptor ++ f.annotations).map .type).map
              fun subject => ⟨c.name ++ "#" ++ f.name, classLine, subject⟩) ++
          (c.methods.filter (!s.suppression.exempts ·.annotations)).flatMap fun m =>
            (ClassFile.typesIn m.descriptor ++ m.exceptions ++ m.annotations).map
              (fun name => ⟨c.name ++ "#" ++ m.display, methodLine m, .type name⟩) ++
            m.code.toList.flatMap fun code => code.references.map fun r =>
              ⟨c.name ++ "#" ++ m.display, lineAt code r.offset, .ofSymbol r.symbol⟩) ∧
      ∃ (scan : ClassScan) (hit? : Site → Option Hit), s.scan c = .ok scan ∧
        scan.violations = (c.sites s.suppression).filterMap (fun site => (hit? site).map fun hit =>
          ⟨c.name, c.sourceFile, site.line, hit.description, site.location, hit.signature⟩) ∧
        ∀ site ∈ c.sites s.suppression, Finds (hit? site) (s.Offends site.subject)) ∧
    ((∃ d ∈ c.descriptors s.suppression, descriptorClasses? d = none) →
      ∃ d ∈ c.descriptors s.suppression, descriptorClasses? d = none ∧
        s.scan c = .error (.classFile c.name (.invalidDescriptor d))) := by
  have hs := hrules.sound
  have hcheck : ∀ site ∈ c.sites s.suppression, (∀ d, site.subject ≠ .malformed d) →
      ∃ finding, s.check c.name site = .ok finding ∧ Finds finding.hit (s.Offends site.subject) :=
    fun site hsite => exists_check hs hread c.name (hnames site hsite)
  refine ⟨fun hd => ⟨⟨c.classLine, fun m => m.firstLine.getD c.classLine,
    fun code offset => (code.lineAt offset).getD 0, c.isFirstLine_firstLine 0,
    fun m => m.isFirstLine_firstLine _, Code.isLineAt_lineAt, ClassFile.sites_eq hc hd⟩, ?_⟩, ?_⟩
  · have hsound : ∀ site ∈ c.sites s.suppression, ∀ d, site.subject ≠ .malformed d := by
      intro site hsite d h
      obtain ⟨hmem, hnone⟩ := (ClassFile.malformed_mem_sites hc).1 ⟨site, hsite, h⟩
      simpa [hnone] using hd d hmem
    have : Nonempty Finding := ⟨none, []⟩
    choose! find hfind using fun site hsite => hcheck site hsite (hsound site hsite)
    exact ⟨_, fun site => (find site).hit,
      scan_of_check fun site hsite => (hfind site hsite).1, rfl, fun site hsite =>
      (hfind site hsite).2⟩
  · rintro ⟨d, hd⟩
    obtain ⟨site, hsite, hsubject⟩ := (ClassFile.malformed_mem_sites hc).2 hd
    have hok : ∀ site ∈ c.sites s.suppression, (∀ d, site.subject ≠ .malformed d) →
        ∃ finding, s.check c.name site = .ok finding := fun site hsite hw =>
      (hcheck site hsite hw).imp fun _ h => h.1
    obtain ⟨stop, hstop, d', hd', hscan⟩ := scan_of_malformed hok ⟨site, hsite, d, hsubject⟩
    obtain ⟨hmem, hnone⟩ := (ClassFile.malformed_mem_sites hc).1 ⟨stop, hstop, hd'⟩
    exact ⟨d', hmem, hnone, hscan⟩

end Scanner

/-! ## A caller of an inherited method -/

namespace InheritedCall

/-- Extends a class, declares a field of its type and calls its inherited method. -/
def caller : ClassFile :=
  ⟨"app.Main", 1, 52, none, some "lib.Derived", [], [], [⟨"target", "Llib/Derived;", 0, []⟩],
    [⟨"main", "()V", 1, [], [],
      some ⟨[⟨5, .method "lib.Derived" "run" "()V" false⟩], [⟨0, 12⟩, ⟨4, 14⟩]⟩⟩]⟩

theorem sites_caller : caller.sites .empty =
    [⟨"app.Main", 12, .type "lib.Derived"⟩, ⟨"app.Main#target", 12, .fieldDecl "app.Main" "target"⟩,
      ⟨"app.Main#target", 12, .type "lib.Derived"⟩,
      ⟨"app.Main#main()", 14, .member "lib.Derived" "run" (some "()V")⟩] := by decide +kernel

/-- The call violates the rule about the overload. -/
theorem offends_call : scanner.Offends (.member "lib.Derived" "run" (some "()V"))
    (.rule overloadRule "lib.Base" true) := by
  refine .member resolveMember_run (by decide) ?_
  exact (Policy.MemberUse.applies_overload rfl).2 (by decide)

theorem scan_reports_sites_caller :
    ∃ (scan : ClassScan) (hit? : Site → Option Hit), scanner.scan caller = .ok scan ∧
      scan.violations = (caller.sites .empty).filterMap (fun site => (hit? site).map fun hit =>
        ⟨"app.Main", none, site.line, hit.description, site.location, hit.signature⟩) ∧
      (∀ site ∈ caller.sites .empty, Finds (hit? site) (scanner.Offends site.subject)) ∧
      ∃ v ∈ scan.violations, v.line = 14 ∧ v.location = "app.Main#main()" := by
  have hnames : ∀ site ∈ caller.sites .empty, ∀ name, scanner.Involves site.subject name →
      '#' ∉ name.toList := by
    rw [sites_caller]
    intro site hsite name hname
    simp only [List.mem_cons, List.not_mem_nil, or_false] at hsite
    rcases hsite with rfl | rfl | rfl | rfl
    · cases hname
      decide
    · cases hname
      decide
    · cases hname
      decide
    · rcases hname with rfl | ⟨lineage, declarer, missing, h, hname⟩
      · decide
      · rw [show scanner.source = source from rfl, resolveMember_run] at h
        cases h
        revert name
        decide
  obtain ⟨_, scan, hit?, hscan, hviolations, hhits⟩ :=
    (Scanner.scan_reports_sites (s := scanner) (c := caller)
    (by decide) frozen_rules readable_source hnames).1 (by decide +kernel)
  refine ⟨scan, hit?, hscan, hviolations, hhits, ?_⟩
  have hcall :
      ⟨"app.Main#main()", 14, .member "lib.Derived" "run" (some "()V")⟩ ∈ caller.sites .empty := by
    rw [sites_caller]
    simp
  obtain ⟨hit, hhit⟩ := Option.ne_none_iff_exists'.1 ((hhits _ hcall).complete _ offends_call)
  refine ⟨⟨"app.Main", none, 14, hit.description, "app.Main#main()", hit.signature⟩, ?_, rfl, rfl⟩
  rw [hviolations]
  exact List.mem_filterMap.2 ⟨_, hcall, by rw [hhit]; rfl⟩

end InheritedCall

end JvmAudit
