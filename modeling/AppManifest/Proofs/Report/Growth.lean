import AppManifest.Proofs.Resolution
import AppManifest.Report.Expansion
/-!
# Documents with further packages

Packages that are appended to a document come last in every search, so whatever was found before is
found again (`Document.extends_withPackages`). Hence what resolves keeps resolving to the same
entity, what does not validate keeps failing in the same way, and an expansion that succeeds stays
as it is (`Document.Extends.expand`).

Only lookups that fail may come to something else, since a block of an appended package may be what
they look for. Until then a mismatch of kinds speaks of the same block as before, the first one of
its name (`Document.lookup_withPackages_of_mismatch`).
-/

namespace AppManifest.Document

variable {document larger : Document} {more : List Package} {kind : Kind} {name : String}

/-- The document with some packages behind its own. -/
def withPackages (document : Document) (more : List Package) : Document :=
  { document with packages := document.packages ++ more }

/-- Lookups that find a block in one document find the same block in the other. -/
def Extends (larger document : Document) : Prop :=
  ∀ kind name, Checked.Persists (document.lookup kind name) (larger.lookup kind name)

/-! ### Lookups behind the own packages -/

theorem blocks_withPackages (document : Document) (more : List Package) :
    (document.withPackages more).blocks = document.blocks ++ more.flatMap (·.blocks) :=
  List.flatMap_append

/-- A search by kind and name goes on to appended packages only if it has found nothing. -/
theorem findBlockOfKind?_withPackages (document : Document) (more : List Package)
    (kind name : String) : (document.withPackages more).findBlockOfKind? kind name =
      (document.findBlockOfKind? kind name).or
        ((more.flatMap (·.blocks)).find? fun block ↦ block.kind == kind && block.name == name) := by
  rw [findBlockOfKind?, blocks_withPackages, List.find?_append, findBlockOfKind?]

/-- The same for the search by name alone, on which mismatches of kinds rest. -/
theorem findBlock?_withPackages (document : Document) (more : List Package) (name : String) :
    (document.withPackages more).findBlock? name =
      (document.findBlock? name).or ((more.flatMap (·.blocks)).find? (·.name == name)) := by
  rw [findBlock?, blocks_withPackages, List.find?_append, findBlock?]

/-- **What a lookup finds, it finds again among further packages.** Nothing else about appended
packages is used for what resolves. -/
theorem extends_withPackages (document : Document) (more : List Package) :
    (document.withPackages more).Extends document := by
  intro kind name block h
  rw [lookup_eq_ok_iff] at h ⊢
  rw [findBlockOfKind?_withPackages, h, Option.some_or]

/-- **A mismatch of kinds stays the same, or it is resolved by a block of an appended package.** The
block that is named in the mismatch is the first of its name, and it stays the first. -/
theorem lookup_withPackages_of_mismatch {wanted actual : String} {expected : Kind}
    (h : document.lookup kind name = .error (.kindMismatch wanted expected actual)) :
    (document.withPackages more).lookup kind name =
        .error (.kindMismatch wanted expected actual) ∨
      ∃ package ∈ more, ∃ block ∈ package.blocks,
        (document.withPackages more).lookup kind name = .ok block := by
  have hkind := findBlockOfKind?_of_lookup_error h
  rcases hmore : (more.flatMap (·.blocks)).find?
      (fun block ↦ block.kind == kind.name && block.name == name) with - | found
  · -- the first block of the name is the one that was spoken of before
    left
    rcases hname : document.findBlock? name with - | other
    · rw [lookup_eq, hkind, hname] at h
      exact absurd h (by simp)
    · rw [← h, lookup_eq, lookup_eq, findBlockOfKind?_withPackages, findBlock?_withPackages,
        hkind, hname, hmore]
      rfl
  · right
    obtain ⟨package, hpackage, hblock⟩ := List.mem_flatMap.1 (List.mem_of_find?_eq_some hmore)
    refine ⟨package, hpackage, found, hblock, lookup_eq_ok_iff.2 ?_⟩
    rw [findBlockOfKind?_withPackages, hkind, hmore]
    rfl

/-! ### What is built on lookups -/

namespace Extends

/-- Where the block of a reference is found, the reference comes to the same entity or fails with
the same error. -/
theorem resolve_eq (h : larger.Extends document) {reference : Reference kind} {block : Block}
    (hfound : document.lookup kind reference.name = .ok block) :
    larger.resolve reference = document.resolve reference := by
  rw [resolve_of_lookup hfound, resolve_of_lookup (h _ _ _ hfound)]

/-- A reference that resolves keeps resolving to the same entity, and its expansion stays as it is.
The lemmas below say the same for everything that is put together from references. -/
theorem resolve (h : larger.Extends document) (reference : Reference kind) :
    Checked.Persists (document.resolve reference) (larger.resolve reference) :=
  (h kind reference.name).bind fun _ ↦ .refl _

theorem expandReference (h : larger.Extends document) (reference : Reference kind) :
    Checked.Persists (document.expandReference reference) (larger.expandReference reference) :=
  (h.resolve reference).bind fun _ ↦ .refl _

theorem expandAll (h : larger.Extends document) (references : List (Reference kind)) :
    Checked.Persists (document.expandAll references) (larger.expandAll references) := by
  induction references with
  | nil => exact .refl _
  | cons reference rest ih =>
    exact (h.expandReference reference).bind fun _ ↦ ih.bind fun _ ↦ .refl _

theorem expandOption (h : larger.Extends document) (reference? : Option (Reference kind)) :
    Checked.Persists (document.expandOption reference?) (larger.expandOption reference?) := by
  cases reference? with
  | none => exact .refl _
  | some reference => exact (h.expandReference reference).bind fun _ ↦ .refl _

/-- **An expansion that succeeds is the same in every document that extends this one.** An expansion
is made of references that resolve, and each of these is resolved in the same way. -/
theorem expand (h : larger.Extends document) (app : Application) :
    Checked.Persists (document.expand app) (larger.expand app) :=
  (h.expandReference app.defaultProvider).bind fun _ ↦
    (h.expandAll app.providers).bind fun _ ↦
      (h.expandAll app.functions).bind fun _ ↦
        (h.expandOption app.workflow).bind fun _ ↦ .refl _

end Extends

/-- The application is that of the entry package, which stays the first one. Without a package in
the document an appended one would become it. -/
theorem resolveApplication_withPackages (h : document.packages ≠ []) :
    (document.withPackages more).resolveApplication = document.resolveApplication := by
  have hentry : (document.withPackages more).entryPackage? = document.entryPackage? := by
    rw [entryPackage?, withPackages, List.head?_append_of_ne_nil _ h, entryPackage?]
  rw [resolveApplication, resolveApplication, applicationBlocks, applicationBlocks, hentry]

/-- **Packages that are appended to a document break nothing that resolves in it.** The application
stays the same, lookups find what they have found, a mismatch of kinds stays or is resolved by an
appended block, a block that is not valid stays so, and an expansion stays as it is. -/
theorem appended_packages_break_nothing (document : Document) (more : List Package) :
    (document.packages ≠ [] →
        (document.withPackages more).resolveApplication = document.resolveApplication) ∧
      (∀ kind name block, document.lookup kind name = .ok block →
        (document.withPackages more).lookup kind name = .ok block) ∧
      (∀ kind name wanted expected actual,
        document.lookup kind name = .error (.kindMismatch wanted expected actual) →
        (document.withPackages more).lookup kind name =
            .error (.kindMismatch wanted expected actual) ∨
          ∃ package ∈ more, ∃ block ∈ package.blocks,
            (document.withPackages more).lookup kind name = .ok block) ∧
      (∀ (kind : Kind) (reference : Reference kind) block e,
        document.lookup kind reference.name = .ok block → document.resolve reference = .error e →
        (document.withPackages more).resolve reference = .error e) ∧
      ∀ app expanded, document.expand app = .ok expanded →
        (document.withPackages more).expand app = .ok expanded := by
  have hextends := document.extends_withPackages more
  refine ⟨resolveApplication_withPackages, hextends, fun _ _ _ _ _ ↦
    lookup_withPackages_of_mismatch, fun kind reference block e hfound hfails ↦ ?_, hextends.expand⟩
  rw [hextends.resolve_eq hfound, hfails]

end AppManifest.Document
