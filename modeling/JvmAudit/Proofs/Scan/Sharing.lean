import JvmAudit.Proofs.Classpath.Sharing
import JvmAudit.Proofs.Scan.Sites

/-!
# Scans that share a resolver

A scan is a computation that looks classes up, so many scans may share one resolver, whose memory
none of them can notice (`Sharing.run_transparent`).
-/

namespace JvmAudit

/-- What is remembered is what the containers have. -/
theorem Resolver.Sound.supplies {r : Resolver} (h : r.Sound) {p : String × Option ClassFile}
    (hp : p ∈ r.cache) :
    ClassSource.Supplies ⟨[], r.source.containers⟩ p.1 (.ok p.2) :=
  ClassSource.supplies_iff.2 (h.entries p hp)

/-- **Callers that share a resolver do not notice each other**, whatever the schedule is and
whatever was remembered before they started. Each look-up gives what there is. What is remembered is
what the containers have, and it stays; a look-up that fails leaves nothing behind; remembered are,
beside what was before, exactly the names not at hand whose look-up succeeded. A look-up that is not
interrupted is a load. A scan ends, and gives what it gives on the class path alone. -/
theorem Sharing.run_transparent {ι : Type} [DecidableEq ι] (r : Resolver) (hr : r.Sound)
    (asks : ι → List Answer → Option String) (schedule : List ι) :
    let x := (Sharing.start r asks).run schedule
    (∀ i, ∀ p ∈ (x.callers i).log, ∀ answer, r.source.Supplies p.1 answer ↔ p.2 = answer) ∧
    (∀ p ∈ x.resolver.cache, x.resolver.loadUncached p.1 = .ok p.2 ∧
      ClassSource.Supplies ⟨[], r.source.containers⟩ p.1 (.ok p.2)) ∧
    (∀ more name found, x.resolver.cache.lookup name = some found →
      (x.run more).resolver.cache.lookup name = some found) ∧
    (∀ i, (x.step i).resolver = x.resolver ∨
      ∃ name found, ((x.step i).callers i).log = (x.callers i).log ++ [(name, .ok found)]) ∧
    (∃ names : List String, names.Nodup ∧ x.resolver.cachedCount = names.length ∧
      ∀ name, name ∈ names ↔ name ∈ r.names ∨
        r.source.overlay? name = none ∧ ∃ i found, (name, .ok found) ∈ (x.callers i).log) ∧
    (∀ i name, (x.callers i).phase = .idle → (x.callers i).asked? = some name →
      ∃ n ≤ 4, (x.run (List.replicate n i)).resolver = (x.resolver.load name).2 ∧
        (x.run (List.replicate n i)).callers i =
          (x.callers i).complete name (x.resolver.load name).1) ∧
    ∀ i policy suppression c,
      let scan : Query r.mentioned ClasspathError ClassScan := Policy.scan policy suppression c
      asks i = scan.run.asks →
      (∃ bound, ∀ more, bound ≤ more.count i →
        scan.run.result? ((x.run more).callers i).answers =
          some (Scanner.scan ⟨policy, r.source, suppression⟩ c)) ∧
      ∀ result, scan.run.result? (x.callers i).answers = some result →
        result = Scanner.scan ⟨policy, r.source, suppression⟩ c := by
  intro x
  have h : Sharing.Inv r asks x := (Sharing.inv_start hr asks).run schedule
  refine ⟨?_, ?_, ?_, ?_, ?_, ?_, ?_⟩
  · intro i p hp answer
    rw [← (h.callers i).answers p hp]
    exact ClassSource.supplies_iff
  · intro p hp
    exact ⟨h.resolver.entries p hp, h.source_eq ▸ h.resolver.supplies hp⟩
  · intro more name found hl
    exact h.lookup_run more hl
  · intro i
    exact (h.moves i).resolver_eq_or
  · exact ⟨x.resolver.names, h.resolver.names_nodup, (List.length_map _).symm, h.mem_names⟩
  · intro i name hidle hask
    exact Sharing.exists_run_load hidle hask
  · intro i policy suppression c scan hi
    have hload := Resolver.supertypes_source_load_subset (List.Subset.refl r.mentioned)
    have heval : scan.run.eval r.source.load hload =
        Scanner.scan ⟨policy, r.source, suppression⟩ c :=
      policy.eval_scan suppression c
    rw [← heval]
    refine ⟨⟨4 * (scan.run.asked r.source.load hload).length,
      fun more hn => h.result_run hi hn⟩, ?_⟩
    intro result hresult
    exact (h.callers i).result_eq hload ((h.asks_eq i).trans hi) hresult

namespace InheritedCall

/-- The derived class is in a directory. The archive behind it has the base class, and a file for
the derived class that is no class file. -/
def shadowing : Resolver := .ofSource ⟨[], [directory,
  .archive "lib.jar" "" (.ofList [("lib/Base.class", baseFile), ("lib/Derived.class", [])])]⟩

/-- The scan of the caller. -/
def scanOfCaller : Query shadowing.mentioned ClasspathError ClassScan :=
  Policy.scan ⟨rules, false⟩ .empty caller

/-- Two scans of the same class, side by side. -/
def twoScans : Sharing Bool := .start shadowing fun _ => scanOfCaller.run.asks

/-- Both scans look for the derived class and read its file before one of them remembers it. -/
def firstLoads : List Bool := [false, true, false, true, false, true, false, true]

theorem run_transparent_two_scans :
    (∀ i, ((twoScans.run firstLoads).callers i).log = [("lib.Derived", .ok (some derived))]) ∧
    (twoScans.run firstLoads).resolver.cachedCount = 1 ∧
    shadowing.source.Supplies "lib.Derived" (.ok (some derived)) ∧
    ∃ bound, ∀ more : List Bool, bound ≤ more.count true →
      scanOfCaller.run.result? (((twoScans.run firstLoads).run more).callers true).answers =
        some (Scanner.scan ⟨⟨rules, false⟩, shadowing.source, .empty⟩ caller) := by
  have hlog : ∀ i, ((twoScans.run firstLoads).callers i).log =
      [("lib.Derived", .ok (some derived))] := by
    decide +kernel
  obtain ⟨hlogs, _, _, _, _, _, hscans⟩ :=
    Sharing.run_transparent shadowing (Resolver.sound_ofSource _)
    (fun _ => scanOfCaller.run.asks) firstLoads
  refine ⟨hlog, by decide +kernel, ?_, (hscans true ⟨rules, false⟩ .empty caller rfl).1⟩
  have hmem := hlog true ▸ List.mem_singleton.2 rfl
  exact (hlogs true ("lib.Derived", .ok (some derived)) hmem _).2 rfl

end InheritedCall

end JvmAudit
