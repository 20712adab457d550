import JvmAudit.Assembler.Class
import JvmAudit.Proofs.ClassFile.Descriptors
import JvmAudit.Proofs.Scan.Monotone

/-!
# When a scan fails

A scan fails because of a descriptor that is no type, or because a class cannot be loaded
(`Scanner.check_error`). A class that was read has no such descriptor, so only the class path can
make its scan fail (`Scanner.scan_of_parse`). The methods of such a class are displayed with the
Java spellings of their parameters.
-/

namespace JvmAudit

/-! ## Scans -/

namespace Scanner

variable {s : Scanner} {e : ClasspathError}

/-- If all descriptors can be read, a scan fails only because a class cannot be loaded. -/
theorem exists_of_scan_error {c : ClassFile} (hc : c.Checkable s.suppression)
    (h : s.scan c = .error e) :
    ∃ name, s.source.load name = .error e := by
  rw [scan_eq, Result.map_eq_error] at h
  obtain ⟨front, site, back, hsites, -, hcheck⟩ := Result.mapM_eq_error.1 h
  have hmem : site ∈ c.sites s.suppression := by simp [hsites]
  rcases check_error hcheck with ⟨d, hd⟩ | hload
  · exact absurd hd (hc site hmem d)
  · exact hload

end Scanner

/-! ## Descriptors that are types -/

namespace ClassFile.Described

variable {c : ClassFile}

/-- The classes of a descriptor can be told: a field type and a method type differ in their first
characters. -/
theorem descriptorClasses?_ne_none (hc : c.Described) {exempt : Suppression} {d : String}
    (hd : d ∈ c.descriptors exempt) : descriptorClasses? d ≠ none := by
  intro hnone
  obtain ⟨hfield, hmethod⟩ := Descriptor.descriptorClasses?_eq_none_iff.1 hnone
  rcases List.mem_append.1 hd with hd | hd
  · obtain ⟨f, hf, rfl⟩ := List.mem_map.1 hd
    obtain ⟨t, ht⟩ := hc.fields f (List.mem_filter.1 hf).1
    exact hfield (Descriptor.isSome_field_iff.1 (by simp [ht]))
  · obtain ⟨m, hm, rfl⟩ := List.mem_map.1 hd
    obtain ⟨t, ht⟩ := hc.methods m (List.mem_filter.1 hm).1
    exact hmethod (Descriptor.isSome_method_iff.1 (by simp [ht]))

theorem checkable (hc : c.Described) (exempt : Suppression) : c.Checkable exempt := by
  intro site hsite d hd
  cases hexempt : exempt.exempts c.annotations with
  | true =>
    rw [ClassFile.sites, if_pos hexempt] at hsite
    cases hsite
  | false =>
    obtain ⟨hmem, hnone⟩ := (ClassFile.malformed_mem_sites hexempt).1 ⟨site, hsite, hd⟩
    exact hc.descriptorClasses?_ne_none hmem hnone

end ClassFile.Described

/-! ## Parameters as they are displayed -/

theorem FieldType.semicolon_notMem_spelling {t : FieldType} (h : t.base.Readable) :
    ';' ∉ t.spelling.toList := by
  intro hmem
  unfold spelling at hmem
  rw [String.toList_append, List.mem_append] at hmem
  rcases hmem with hbase | hbrackets
  · cases hb : t.base with
    | primitive p =>
      rw [hb] at hbase
      cases p <;> exact absurd hbase (by decide)
    | object name =>
      rw [hb] at h hbase
      rcases mem_binaryName hbase with hname | hdot
      · exact h.2 hname
      · cases hdot
  · rw [String.toList_join, List.mem_flatMap] at hbrackets
    obtain ⟨pair, hpair, hmem⟩ := hbrackets
    rw [(List.mem_replicate.1 hpair).2] at hmem
    exact absurd hmem (by decide)

theorem RuleTarget.semicolon_notMem_paramsDisplay {params : List FieldType}
    (h : ∀ t ∈ params, t.base.Readable) :
    ';' ∉ paramsDisplay params := by
  intro hmem
  rw [paramsDisplay_eq] at hmem
  rcases Text.mem_intercalate hmem with hcomma | ⟨part, hpart, hmem⟩
  · cases hcomma
  · obtain ⟨t, ht, rfl⟩ := List.mem_map.1 hpart
    exact FieldType.semicolon_notMem_spelling (h t ht) hmem

/-- The displayed parameters are never the descriptor itself. -/
theorem prettyParams_ne {descriptor : String} {t : MethodType}
    (h : MethodType.ofDescriptor? descriptor = some t) :
    prettyParams descriptor ≠ descriptor := by
  obtain ⟨hreadable, hrender⟩ := MethodType.ofDescriptor?_eq_some_iff.1 h
  obtain ⟨hparams, -⟩ := MethodType.readable_iff.1 hreadable
  have hpretty : (prettyParams descriptor).toList = RuleTarget.paramsDisplay t.params := by
    unfold prettyParams RuleTarget.paramsDisplay
    rw [h]
  intro heq
  rw [heq, ← hrender] at hpretty
  cases hlist : t.params with
  | nil => simp [hlist, MethodType.render, RuleTarget.paramsDisplay_eq] at hpretty
  | cons p ps =>
    obtain ⟨dims, base⟩ := p
    cases base with
    | primitive q =>
      -- a keyword is displayed first, not a parenthesis
      obtain ⟨back, hback⟩ := RuleTarget.paramsDisplay_cons ⟨dims, .primitive q⟩ ps
      rw [hlist, hback, MethodType.render, FieldType.spelling, String.toList_append] at hpretty
      cases q <;> simp [BaseType.spelling, Primitive.keyword] at hpretty
    | object name =>
      -- the descriptor has the semicolon of the class
      refine RuleTarget.semicolon_notMem_paramsDisplay hparams ?_
      rw [← hpretty, MethodType.render, hlist]
      simp [FieldType.render, BaseType.render]

theorem MethodDecl.display_ne {m : MethodDecl} {t : MethodType}
    (h : MethodType.ofDescriptor? m.descriptor = some t) :
    m.display ≠ m.name ++ "(" ++ m.descriptor ++ ")" := by
  intro heq
  have hparams := congrArg String.toList heq
  simp only [display, String.toList_append, List.append_cancel_right_eq, List.append_cancel_left_eq,
    String.toList_inj] at hparams
  exact prettyParams_ne h hparams

/-! ## Classes that were read -/

/-- **The scan of a class that was read.** Whatever the rules and exemptions are, it succeeds on a
class path that can be read, and on any class path it fails only with the failure to load some
class. No site of the class has a descriptor that is no type, and every method is displayed with the
Java spellings of its parameters and not with its descriptor. -/
theorem Scanner.scan_of_parse {depth : Depth} {data : Bytes} {c : ClassFile}
    (h : ClassFile.parse depth data = .ok c) :
    (∀ s : Scanner, s.source.Readable → ∃ scan, s.scan c = .ok scan) ∧
    (∀ (s : Scanner) (e : ClasspathError), s.scan c = .error e →
      ∃ name, s.source.load name = .error e) ∧
    (∀ exempt, ∀ site ∈ c.sites exempt, ∀ d, site.subject ≠ .malformed d) ∧
    ∀ m ∈ c.methods, ∃ t, MethodType.ofDescriptor? m.descriptor = some t ∧
      m.display = m.name ++ "(" ++ Text.join "," (t.params.map FieldType.spelling) ++ ")" ∧
      m.display ≠ m.name ++ "(" ++ m.descriptor ++ ")" := by
  have hc := ClassFile.described_of_parse h
  refine ⟨?_, ?_, hc.checkable, ?_⟩
  · intro s hread
    exact exists_scan_ok hread (hc.checkable s.suppression) s.policy
  · intro s e herror
    exact exists_of_scan_error (hc.checkable s.suppression) herror
  · intro m hm
    obtain ⟨t, ht⟩ := hc.methods m hm
    refine ⟨t, ht, ?_, MethodDecl.display_ne ht⟩
    rw [MethodDecl.display, prettyParams, ht]

/-- A class with an array as field and a method that takes a class with a parenthesis in its
name. -/
def oddMembers : Bytes := (Assembler.ClassSpec.build { Assembler.ClassSpec.ofName "app.Odd" with
  members := [
    .field "ticks" "[J" [],
    .method (.ofBody "plan" "(La(b;[I)V" [.line 3, .onType .new "lib.Base",
      .plain .voidReturn])] }).data

theorem scan_of_parse_odd :
    ∃ c, ClassFile.parse .full oddMembers = .ok c ∧
      (∃ scan, InheritedCall.scanner.scan c = .ok scan) ∧
      c.methods.map (·.display) = ["plan(a(b,int[])"] ∧
      ∀ m ∈ c.methods, m.display ≠ m.name ++ "(" ++ m.descriptor ++ ")" := by
  have hdisplay : (ClassFile.parse .full oddMembers).map (fun c => c.methods.map (·.display)) =
      .ok ["plan(a(b,int[])"] := by decide +kernel
  obtain ⟨c, hparse, hmethods⟩ := Result.map_eq_ok.1 hdisplay
  obtain ⟨hscan, -, -, hshown⟩ := Scanner.scan_of_parse hparse
  refine ⟨c, hparse, hscan InheritedCall.scanner InheritedCall.readable_source, hmethods,
    fun m hm => ?_⟩
  obtain ⟨t, -, -, hne⟩ := hshown m hm
  exact hne

end JvmAudit
