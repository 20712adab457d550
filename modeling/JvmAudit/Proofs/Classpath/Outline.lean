import JvmAudit.Proofs.ClassFile.Consumption
import JvmAudit.Proofs.ClassFile.Outline
import JvmAudit.Proofs.Classpath.Walk

/-!
# Classes on the class path and classes at hand

Classes are loaded from the class path without bodies, and classes that are to be checked stand in
front of it with bodies. Nobody who asks for supertypes or members can tell the two apart: two
sources that load the same classes, bodies aside, give the same walks over ancestors and find
members in the same places (`ClassSource.SameOutlines`).

## Main results

* `ClassSource.SameOutlines.lineage_eq`, `ClassSource.SameOutlines.resolveMember_eq`
* `ClassSource.outline_or_full`: a class from the class path is the class at hand, bodies aside
-/

namespace JvmAudit

/-- A lineage without bodies. -/
def Lineage.outline (l : Lineage) : Lineage := { l with classes := l.classes.map ClassFile.outline }

/-- What became of the search for a member, without bodies. -/
def MemberResolution.outline : MemberResolution → MemberResolution
  | .resolved lineage declarer missing => .resolved (lineage.map ClassFile.outline) declarer missing
  | .unresolvable owner => .unresolvable owner

theorem MemberQuery.declaredIn_outline (q : MemberQuery) (c : ClassFile) :
    q.declaredIn c.outline = q.declaredIn c := by
  cases q with
  | field name => rfl
  | method name descriptor => simp [declaredIn, ClassFile.method?_outline]
  | overload name params => simp [declaredIn, ClassFile.overload?_outline]
  | named name => exact ClassFile.declaresNamed_outline c name

/-- The same classes are loaded, bodies aside, and loading fails alike. -/
def ClassSource.SameOutlines (s s' : ClassSource) : Prop :=
  ∀ name, (s.load name).map (Option.map ClassFile.outline) =
    (s'.load name).map (Option.map ClassFile.outline)

namespace Walk

variable {s s' : ClassSource}

/-- Steps of two walks that go the same way. -/
inductive SameStep : Outcome × Walk → Outcome × Walk → Prop
  | error (e : ClasspathError) (w : Walk) : SameStep (.error e, w) (.error e, w)
  | finished (w : Walk) : SameStep (.ok none, w) (.ok none, w)
  | found {c c' : ClassFile} (h : c.outline = c'.outline) (w : Walk) : SameStep (.ok (some c), w)
    (.ok (some c'), w)

theorem SameStep.of_error {e : ClasspathError} {w : Walk} {step : Outcome × Walk}
    (h : SameStep (.error e, w) step) :
    step = (.error e, w) := by
  cases h
  rfl

theorem SameStep.of_finished {w : Walk} {step : Outcome × Walk} (h : SameStep (.ok none, w) step) :
    step = (.ok none, w) := by
  cases h
  rfl

theorem SameStep.of_found {c : ClassFile} {w : Walk} {step : Outcome × Walk}
    (h : SameStep (.ok (some c), w) step) :
    ∃ c', step = (.ok (some c'), w) ∧ c.outline = c'.outline := by
  cases h with
  | found h w => exact ⟨_, rfl, h⟩

/-- Two sources with the same outlines fail alike, miss alike, or give classes with the same
outline. -/
theorem load_cases (h : s.SameOutlines s') (name : String) :
    (∃ e, s.load name = .error e ∧ s'.load name = .error e) ∨
    (s.load name = .ok none ∧ s'.load name = .ok none) ∨
      ∃ c c', s.load name = .ok (some c) ∧ s'.load name = .ok (some c') ∧
      c.outline = c'.outline := by
  have hname := h name
  generalize s.load name = answer, s'.load name = answer' at hname ⊢
  rcases answer with e | _ | c <;> rcases answer' with e' | _ | c' <;> simp_all [Except.map]

/-- A walk goes on by the outline of a class only. -/
theorem Request.found_congr {c c' : ClassFile} (h : c.outline = c'.outline) (r : Request) :
    r.found c = r.found c' := by
  obtain ⟨hsuper, hinterfaces⟩ := ClassFile.supertypes_of_outline_eq h
  unfold found
  rw [hsuper, hinterfaces]

/-- Steps on two such sources give the same walk. -/
theorem sameStep_next (h : s.SameOutlines s') (w : Walk) : SameStep (s.next w) (s'.next w) := by
  induction w using request_induction s with
  | h w hmissed _ =>
    cases hr : w.request? with
    | none =>
      rw [ClassSource.next_of_end hr, ClassSource.next_of_end hr]
      exact .finished _
    | some r =>
      rcases load_cases h r.name with ⟨e, hl, hl'⟩ | ⟨hl, hl'⟩ | ⟨c, c', hl, hl', ho⟩
      · rw [ClassSource.next_of_load_error hr hl, ClassSource.next_of_load_error hr hl']
        exact .error e _
      · rw [ClassSource.next_of_load_none hr hl, ClassSource.next_of_load_none hr hl']
        exact hmissed r hr
      · rw [ClassSource.next_of_load hr hl, ClassSource.next_of_load hr hl',
          Request.found_congr ho r]
        exact .found ho _

/-- Lists of classes that are the same, bodies aside. -/
def SameClasses (classes classes' : List ClassFile) : Prop :=
  classes.map ClassFile.outline = classes'.map ClassFile.outline

theorem sameClasses_cons {c c' : ClassFile} {classes classes' : List ClassFile}
    (hc : c.outline = c'.outline)
    (h : SameClasses classes classes') : SameClasses (c :: classes) (c' :: classes') := by
  unfold SameClasses at h ⊢
  rw [List.map_cons, List.map_cons, hc, h]

theorem sameClasses_reverse {classes classes' : List ClassFile} (h : SameClasses classes classes') :
    SameClasses classes.reverse classes'.reverse := by
  unfold SameClasses at h ⊢
  rw [List.map_reverse, List.map_reverse, h]

/-- Two walks that go the same way give the same classes, and end in the same state. -/
theorem sameClasses_collectFrom (h : s.SameOutlines s') {stop : ClassFile → Bool}
    (hstop : ∀ c, stop c.outline = stop c) (w : Walk) {visited visited' : List ClassFile}
    (hv : SameClasses visited visited') :
    Result.Agree SameClasses (s.collectFrom stop w visited).1 (s'.collectFrom stop w visited').1 ∧
      (s.collectFrom stop w visited).2 = (s'.collectFrom stop w visited').2 := by
  induction w using step_induction s generalizing visited visited' with
  | h w ih =>
    have hsame := sameStep_next h w
    rcases hn : s.next w with ⟨e | _ | c, w'⟩
    · rw [ClassSource.collectFrom_of_error hn,
        ClassSource.collectFrom_of_error (hn ▸ hsame).of_error]
      exact ⟨.error e, rfl⟩
    · rw [ClassSource.collectFrom_of_none hn,
        ClassSource.collectFrom_of_none (hn ▸ hsame).of_finished]
      exact ⟨.ok (sameClasses_reverse hv), rfl⟩
    · obtain ⟨c', hn', ho⟩ := (hn ▸ hsame).of_found
      have hc : stop c = stop c' := by rw [← hstop c, ho, hstop c']
      rw [ClassSource.collectFrom_of_some hn, ClassSource.collectFrom_of_some hn', hc]
      split
      · exact ⟨.ok (sameClasses_reverse (sameClasses_cons ho hv)), rfl⟩
      · exact ih c w' hn (sameClasses_cons ho hv)

/-- Walks on two such sources give classes with the same outlines, if the bodies do not matter for
the stop. -/
theorem sameClasses_collect (h : s.SameOutlines s') (stop : ClassFile → Bool)
    (hstop : ∀ c, stop c.outline = stop c) (name : String) :
    Result.Agree SameClasses (s.collect stop name).1 (s'.collect stop name).1 ∧
      (s.collect stop name).2 = (s'.collect stop name).2 := by
  rw [ClassSource.collect_eq, ClassSource.collect_eq]
  exact sameClasses_collectFrom h hstop _ rfl

end Walk

namespace ClassSource

variable {s s' : ClassSource}

/-- Two sources with the same classes, bodies aside, give the same ancestors. -/
theorem SameOutlines.lineage_eq (h : s.SameOutlines s') (name : String) :
    (s.lineage name).map Lineage.outline = (s'.lineage name).map Lineage.outline := by
  obtain ⟨hclasses, hwalk⟩ := Walk.sameClasses_collect h (fun _ => false) (fun _ => rfl) name
  rw [ClassSource.lineage_eq, ClassSource.lineage_eq]
  generalize s.collect (fun _ => false) name = walk, s'.collect (fun _ => false) name = walk'
    at hclasses hwalk ⊢
  obtain ⟨result, w⟩ := walk
  obtain ⟨result', w'⟩ := walk'
  obtain rfl : w = w' := hwalk
  cases hclasses with
  | error e => rfl
  | ok hsame =>
    simp only [Except.map, Lineage.outline]
    rw [show List.map ClassFile.outline _ = _ from hsame]

/-- Two sources with the same classes, bodies aside, find members in the same places. -/
theorem SameOutlines.resolveMember_eq (h : s.SameOutlines s') (owner : String)
    (query : MemberQuery) :
    (s.resolveMember owner query).map MemberResolution.outline =
      (s'.resolveMember owner query).map MemberResolution.outline := by
  obtain ⟨hclasses, hwalk⟩ :=
    Walk.sameClasses_collect h query.declaredIn query.declaredIn_outline owner
  rw [ClassSource.resolveMember_eq, ClassSource.resolveMember_eq]
  generalize s.collect query.declaredIn owner = walk, s'.collect query.declaredIn owner = walk'
    at hclasses hwalk ⊢
  obtain ⟨result, w⟩ := walk
  obtain ⟨result', w'⟩ := walk'
  obtain rfl : w = w' := hwalk
  have hdeclarer : ∀ classes : List ClassFile, classes.findIdx? query.declaredIn =
      (classes.map ClassFile.outline).findIdx? query.declaredIn := by
    intro classes
    rw [List.findIdx?_map]
    congr 1
    funext c
    exact (query.declaredIn_outline c).symm
  cases hclasses with
  | error e => rfl
  | @ok classes classes' hsame =>
    cases classes with
    | nil =>
      cases classes' with
      | nil => rfl
      | cons c' classes' => cases hsame
    | cons c classes =>
      cases classes' with
      | nil => cases hsame
      | cons c' classes' =>
        have hmap : (c :: classes).map ClassFile.outline = (c' :: classes').map ClassFile.outline :=
          hsame
        have hfirst : (c :: classes).findIdx? query.declaredIn =
            (c' :: classes').findIdx? query.declaredIn := by
          rw [hdeclarer, hmap, ← hdeclarer]
        simp only [MemberQuery.resolution, Except.map, MemberResolution.outline, hfirst, hmap]

theorem load_addOverlay_self (s : ClassSource) (c : ClassFile) :
    (s.addOverlay c).load c.name = .ok (some c) :=
  load_of_overlay (by simp [overlay?, addOverlay])

theorem load_addOverlay_of_ne {c : ClassFile} {name : String} (h : c.name ≠ name) :
    (s.addOverlay c).load name = s.load name := by
  simp [load, overlay?, addOverlay, h]

/-- A class at hand in place of the same class without bodies. -/
theorem sameOutlines_addOverlay {c : ClassFile} (h : s.load c.name = .ok (some c.outline)) :
    (s.addOverlay c).SameOutlines s := by
  intro name
  by_cases hname : c.name = name
  · subst hname
    rw [load_addOverlay_self, h]
    simp [Except.map, ClassFile.outline_outline]
  · rw [load_addOverlay_of_ne hname]

/-- **Reading without bodies gives what reading with bodies gives, bodies aside.** What cannot be
read without bodies cannot be read with them.

So it does not matter whether a class is found on the class path, where it is read without bodies,
or is put in front of it to be checked: it has the same members, by each of the four ways to ask for
them, and every class has the same ancestors and finds members in the same places. -/
theorem outline_or_full (data : Bytes) :
    (∀ c, ClassFile.parse .full data = .ok c → ClassFile.parse .outline data = .ok c.outline) ∧
    (∀ e, ClassFile.parse .outline data = .error e → ∃ e', ClassFile.parse .full data = .error e') ∧
    ∀ c, ClassFile.parse .full data = .ok c →
      (∀ name, c.outline.field? name = c.field? name) ∧
      (∀ name descriptor, c.outline.method? name descriptor =
        (c.method? name descriptor).map MethodDecl.outline) ∧
      (∀ name params, c.outline.overload? name params =
        (c.overload? name params).map MethodDecl.outline) ∧
      (∀ name, c.outline.declaresNamed name = c.declaresNamed name) ∧
      ∀ (s : ClassSource) (k : Container) (origin : String),
        s.overlay? c.name = none → s.Decides c.name k →
        k.Has (internalName c.name) (.ok (data, origin)) →
        s.load c.name = .ok (some c.outline) ∧
        (s.addOverlay c).load c.name = .ok (some c) ∧
        (∀ name, ((s.addOverlay c).lineage name).map Lineage.outline =
          (s.lineage name).map Lineage.outline) ∧
        ∀ owner query, ((s.addOverlay c).resolveMember owner query).map MemberResolution.outline =
          (s.resolveMember owner query).map MemberResolution.outline := by
  refine ⟨fun c => ClassFile.parse_outline, fun e => ClassFile.parse_full_error, fun c hc => ?_⟩
  refine ⟨c.field?_outline, c.method?_outline, c.overload?_outline, c.declaresNamed_outline, ?_⟩
  intro s k origin hoverlay hk hfile
  have hno := name_ne_of_overlay?_eq_none hoverlay
  have hload := (Supplies.file hno hk hfile (ClassFile.parse_outline hc)).load_eq
  have hsame := sameOutlines_addOverlay hload
  exact ⟨hload, load_addOverlay_self s c, hsame.lineage_eq, hsame.resolveMember_eq⟩

/-- A directory with one class in it. -/
def shelf : Container := .directory "lib"
  ⟨.dir [("lib", .dir [("app", .dir [("Timer.class", .file (.ok ⟨ClassFile.timer.toArray⟩))])])],
    []⟩

/-- The class has a body, which is there only if the class is put in front of the class path. -/
theorem outline_or_full_timer :
    ∃ c, ClassFile.parse .full ClassFile.timer = .ok c ∧ c.outline ≠ c ∧
      ClassSource.load ⟨[], [shelf]⟩ "app.Timer" = .ok (some c.outline) ∧
      (ClassSource.addOverlay ⟨[], [shelf]⟩ c).load "app.Timer" = .ok (some c) ∧
      ∀ name, ((ClassSource.addOverlay ⟨[], [shelf]⟩ c).lineage name).map Lineage.outline =
        (ClassSource.lineage ⟨[], [shelf]⟩ name).map Lineage.outline := by
  have hname : (ClassFile.parse .full ClassFile.timer).map (·.name) = .ok "app.Timer" := by
    decide +kernel
  have hbody : (ClassFile.parse .full ClassFile.timer).map (fun c => decide (c.outline = c)) =
      .ok false := by
    decide +kernel
  have hfile :
      shelf.Has (internalName "app.Timer") (.ok (ClassFile.timer, "lib/app/Timer.class")) :=
    Container.has_iff_read.2 (by decide +kernel)
  obtain ⟨c, hc, hname⟩ := Result.map_eq_ok.1 hname
  rw [hc] at hbody
  obtain ⟨_, _, hfull⟩ := outline_or_full ClassFile.timer
  obtain ⟨_, _, _, _, hplace⟩ := hfull c hc
  rw [hname] at hplace
  obtain ⟨hload, hfront, hlineage, _⟩ := hplace ⟨[], [shelf]⟩ shelf "lib/app/Timer.class" rfl
    ⟨[], [], rfl, by simp⟩ hfile
  exact ⟨c, hc, by simpa [Except.map] using hbody, hload, hfront, hlineage⟩

end ClassSource

end JvmAudit
