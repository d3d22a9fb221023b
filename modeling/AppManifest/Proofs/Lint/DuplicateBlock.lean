import AppManifest.Lint.DuplicateBlock
import AppManifest.Proofs.Resolution
/-!
# Blocks declared twice

Which declaration of its kind and name a block is depends on the blocks before it.
`Block.declarations n before blocks` are those of `blocks` that stand behind exactly `n` others of
their kind and name, where `before` is in front of all. So the lint warns of the blocks that are a
second declaration (`findings_eq_map`), and of each kind and name that occurs twice there is one of
these (`Block.count_declarations`). What a warning says is written out in full where the result is
stated (`check_eq_map`).

What the warning says is true: lookups only ever use first declarations. A document that keeps
nothing else has the same lookups, down to the block that a mismatch of kinds speaks of
(`Document.lookup_firstDeclarations`).
-/

namespace AppManifest

namespace Block

/-- The kind and the name of a block. -/
def key (block : Block) : String × String := (block.kind, block.name)

/-- The blocks that stand behind exactly `n` others of their kind and name, where `before` stands in
front of all of them. -/
def declarations (n : Nat) (before blocks : List Block) : List Block :=
  (blocks.zipIdx.filter fun entry ↦
    ((before ++ blocks.take entry.2).map key).count entry.1.key = n).map Prod.fst

variable {n : Nat} {before blocks rest : List Block} {block : Block}

theorem declarations_cons :
    declarations n before (block :: rest) =
      (if (before.map key).count block.key = n then [block] else []) ++
        declarations n (before ++ [block]) rest := by
  -- positions in the rest are one less than in the whole
  have hrest : ((rest.zipIdx 1).filter fun entry ↦
      ((before ++ (block :: rest).take entry.2).map key).count entry.1.key = n).map Prod.fst =
        declarations n (before ++ [block]) rest := by
    rw [List.zipIdx_succ, List.filter_map, List.map_map, declarations]
    simp only [Function.comp_def, List.take_succ_cons, List.append_assoc, List.singleton_append]
    rfl
  rw [declarations, List.zipIdx_cons, List.filter_cons, List.take_zero, List.append_nil, ← hrest]
  by_cases h : (before.map key).count block.key = n
  · rw [if_pos h, if_pos (decide_eq_true h)]
    rfl
  · rw [if_neg h, if_neg (mt of_decide_eq_true h)]
    rfl

theorem declarations_append (first second : List Block) :
    declarations n before (first ++ second) =
      declarations n before first ++ declarations n (before ++ first) second := by
  induction first generalizing before with
  | nil => rw [List.append_nil]; rfl
  | cons block rest ih =>
    rw [List.cons_append, declarations_cons, declarations_cons, ih, List.append_assoc,
      List.append_assoc, List.singleton_append]

theorem count_snoc (k : String × String) : ((before ++ [block]).map key).count k =
    (before.map key).count k + if block.key = k then 1 else 0 := by
  rw [List.map_append, List.count_append, List.map_singleton, List.count_singleton]
  simp only [beq_iff_eq]

/-- **A kind and name has one `n`-th declaration**, if it is declared often enough. So a warning for
the second of them is given once, however often the block is declared. -/
theorem count_declarations (k : String × String) :
    ((declarations n before blocks).map key).count k =
      if (before.map key).count k ≤ n ∧ n < ((before ++ blocks).map key).count k then 1 else 0 := by
  induction blocks generalizing before with
  | nil =>
    rw [List.append_nil, if_neg fun h ↦ absurd h.1 (Nat.not_le.2 h.2)]
    rfl
  | cons block rest ih =>
    rw [declarations_cons, List.map_append, List.count_append, ih, List.append_assoc,
      List.singleton_append, count_snoc]
    by_cases hk : block.key = k
    · subst hk
      have hall : (before.map key).count block.key <
          ((before ++ block :: rest).map key).count block.key := by
        simp only [List.map_append, List.map_cons, List.count_append, List.count_cons_self]
        omega
      rw [if_pos rfl]
      by_cases hn : (before.map key).count block.key = n
      · -- the block itself is the one that is asked for
        rw [if_pos hn, if_neg (by omega), if_pos (by omega)]
        simp
      · rw [if_neg hn]
        simp only [List.map_nil, List.count_nil, Nat.zero_add]
        exact if_congr (by omega) rfl rfl
    · have hhere : ((if (before.map key).count block.key = n then [block] else []).map key).count
          k = 0 := by
        split
        · simp [hk]
        · rfl
      rw [hhere, if_neg hk, Nat.zero_add, Nat.add_zero]

/-- The third event of a name is no second declaration, and another kind counts by itself. -/
example : (declarations 1 [] [bare "event" "a", bare "function" "a", bare "event" "a",
    bare "event" "a"]).map key = [("event", "a")] := by decide

end Block

/-! ### What the lint finds -/

namespace Lint.DuplicateBlock

/-- Some keys are those that at least `m` of the blocks so far have. -/
def Collects (m : Nat) (keys : List (String × String)) (before : List Block) : Prop :=
  ∀ k, k ∈ keys ↔ m ≤ (before.map Block.key).count k

variable {m : Nat} {keys : List (String × String)} {before : List Block} {block : Block}

/-- One more block changes nothing, unless it is the `m`-th with its key. -/
theorem Collects.skip (h : Collects m keys before)
    (hne : (before.map Block.key).count block.key + 1 ≠ m) :
    Collects m keys (before ++ [block]) := by
  intro k
  rw [h, Block.count_snoc]
  split
  · next hk =>
    subst hk
    omega
  · rw [Nat.add_zero]

theorem Collects.add (h : Collects m keys before)
    (heq : (before.map Block.key).count block.key + 1 = m) :
    Collects m (block.key :: keys) (before ++ [block]) := by
  intro k
  rw [List.mem_cons, h, Block.count_snoc]
  split
  · next hk =>
    subst hk
    exact iff_of_true (Or.inl rfl) (le_of_eq heq.symm)
  · next hk => rw [or_iff_right (Ne.symm hk), Nat.add_zero]

theorem findings_cons (seen reported : List (String × String)) (rest : List Block) :
    findings seen reported (block :: rest) =
      if block.key ∈ seen then
        if block.key ∈ reported then findings seen reported rest
        else finding block.kind block.name :: findings seen (block.key :: reported) rest
      else findings (block.key :: seen) reported rest := rfl

/-- **The lint warns of second declarations**, in their order: it has seen the keys of the blocks so
far, and has reported those that came twice. -/
theorem findings_eq_map {seen reported : List (String × String)} {blocks : List Block}
    (hseen : Collects 1 seen before) (hreported : Collects 2 reported before) :
    findings seen reported blocks =
      (Block.declarations 1 before blocks).map fun block ↦ finding block.kind block.name := by
  induction blocks generalizing before seen reported with
  | nil => rfl
  | cons block rest ih =>
    rw [findings_cons, Block.declarations_cons, List.map_append]
    by_cases hs : block.key ∈ seen
    · have hone := (hseen _).1 hs
      have hseen' : Collects 1 seen (before ++ [block]) := hseen.skip (by omega)
      by_cases hr : block.key ∈ reported
      · have htwo := (hreported _).1 hr
        have hreported' : Collects 2 reported (before ++ [block]) := hreported.skip (by omega)
        rw [if_pos hs, if_pos hr, if_neg (by omega), ih hseen' hreported']
        rfl
      · -- the second block with this key
        have htwo := mt (hreported _).2 hr
        have hreported' : Collects 2 (block.key :: reported) (before ++ [block]) :=
          hreported.add (by omega)
        rw [if_pos hs, if_neg hr, if_pos (by omega), ih hseen' hreported']
        rfl
    · have hnone := mt (hseen _).2 hs
      have hseen' : Collects 1 (block.key :: seen) (before ++ [block]) := hseen.add (by omega)
      have hreported' : Collects 2 reported (before ++ [block]) := hreported.skip (by omega)
      rw [if_neg hs, if_neg (by omega), ih hseen' hreported']
      rfl

end Lint.DuplicateBlock

/-! ### First declarations -/

namespace Document

/-- The first declarations of some packages, where the blocks `before` stand in front of them. -/
def firstDeclarationsFrom (before : List Block) : List Package → List Package
  | [] => []
  | package :: rest =>
    { package with blocks := Block.declarations 0 before package.blocks } ::
      firstDeclarationsFrom (before ++ package.blocks) rest

/-- The document without the blocks that stand behind another one of their kind and name. -/
def firstDeclarations (document : Document) : Document :=
  { document with packages := firstDeclarationsFrom [] document.packages }

theorem blocks_firstDeclarations (document : Document) :
    document.firstDeclarations.blocks = Block.declarations 0 [] document.blocks := by
  have hfrom : ∀ (packages : List Package) (before : List Block),
      (firstDeclarationsFrom before packages).flatMap (·.blocks) =
        Block.declarations 0 before (packages.flatMap (·.blocks)) := by
    intro packages
    induction packages with
    | nil => exact fun _ ↦ rfl
    | cons package rest ih =>
      intro before
      rw [firstDeclarationsFrom, List.flatMap_cons, List.flatMap_cons, ih,
        Block.declarations_append]
  exact hfrom document.packages []

/-- A search by kinds and names finds a first declaration. -/
theorem find?_declarations {wanted : Block → Bool}
    (h : ∀ a b : Block, a.key = b.key → wanted a = wanted b) {blocks before : List Block}
    (hbefore : ∀ block ∈ before, wanted block = false) :
    (Block.declarations 0 before blocks).find? wanted = blocks.find? wanted := by
  induction blocks generalizing before with
  | nil => rfl
  | cons block rest ih =>
    rw [Block.declarations_cons, List.find?_append, List.find?_cons]
    cases hblock : wanted block with
    | true =>
      -- a block in front with the same key would have been found
      have hfirst : (before.map Block.key).count block.key = 0 := by
        rw [List.count_eq_zero, List.mem_map]
        rintro ⟨other, hmem, hkey⟩
        rw [h block other hkey.symm, hbefore other hmem] at hblock
        exact absurd hblock (by decide)
      rw [if_pos hfirst, List.find?_singleton, hblock]
      rfl
    | false =>
      have hhere : (if (before.map Block.key).count block.key = 0 then [block] else []).find?
          wanted = none := by
        split
        · rw [List.find?_singleton, hblock]
          rfl
        · rfl
      rw [hhere, Option.none_or]
      refine ih fun other hmem ↦ ?_
      rcases List.mem_append.1 hmem with hmem | hmem
      · exact hbefore other hmem
      · rwa [List.mem_singleton.1 hmem]

/-- **Lookups only use first declarations**, whether they find a block or fail. Blocks that a
warning is about are passed over by every search. -/
theorem lookup_firstDeclarations (document : Document) (kind : Kind) (name : String) :
    document.firstDeclarations.lookup kind name = document.lookup kind name := by
  have hfind {wanted : Block → Bool} (h : ∀ a b : Block, a.key = b.key → wanted a = wanted b) :
      document.firstDeclarations.blocks.find? wanted = document.blocks.find? wanted := by
    rw [blocks_firstDeclarations]
    exact find?_declarations h fun block hmem ↦ absurd hmem List.not_mem_nil
  have hparts {a b : Block} (hkey : a.key = b.key) : a.kind = b.kind ∧ a.name = b.name :=
    Prod.mk.inj hkey
  rw [lookup_eq, lookup_eq, findBlockOfKind?, findBlockOfKind?, findBlock?, findBlock?,
    hfind fun a b hkey ↦ by rw [(hparts hkey).1, (hparts hkey).2],
    hfind fun a b hkey ↦ by rw [(hparts hkey).2]]

end Document

namespace Lint.DuplicateBlock

/-- The lint gives a warning for each second declaration, with its kind and its name in the text and
as the place. -/
theorem check_eq_map (document : Document) (app : Application) :
    lint.check document app = (Block.declarations 1 [] document.blocks).map fun block ↦
      ⟨.warning, "duplicate-block", "duplicate " ++ block.kind ++ " block '" ++ block.name ++
        "'; only the first declaration is used", some (block.kind ++ "." ++ block.name)⟩ := by
  have hseen : Collects 1 [] [] := fun k ↦ by simp
  have hreported : Collects 2 [] [] := fun k ↦ by simp
  exact findings_eq_map hseen hreported

/-- A document of first declarations has no second ones. -/
theorem check_firstDeclarations (document : Document) (app : Application) :
    lint.check document.firstDeclarations app = [] := by
  rw [check_eq_map, List.map_eq_nil_iff, Document.blocks_firstDeclarations]
  refine List.eq_nil_iff_forall_not_mem.2 fun block hmem ↦ ?_
  have hpos : 0 < ((Block.declarations 1 [] (Block.declarations 0 [] document.blocks)).map
      Block.key).count block.key :=
    List.count_pos_iff.2 (List.mem_map.2 ⟨block, hmem, rfl⟩)
  have hfirst : ((Block.declarations 0 [] document.blocks).map Block.key).count block.key ≤ 1 := by
    rw [Block.count_declarations]
    split <;> omega
  rw [Block.count_declarations, List.nil_append, if_neg (by omega)] at hpos
  exact absurd hpos (Nat.lt_irrefl 0)

/-- **Each kind and name that is declared more than once is reported once**, by a warning that names
both, at the second declaration, and nothing else is. What is reported may be removed: of the first
declarations alone, the lint reports nothing, and every lookup among them finds the same block or
fails in the same way. -/
theorem reports_each_repeated_declaration_once (document : Document) (app : Application) :
    lint.check document app = (Block.declarations 1 [] document.blocks).map (fun block ↦
        ⟨.warning, "duplicate-block", "duplicate " ++ block.kind ++ " block '" ++ block.name ++
          "'; only the first declaration is used", some (block.kind ++ "." ++ block.name)⟩) ∧
      (∀ kind name, ((Block.declarations 1 [] document.blocks).map Block.key).count (kind, name) =
        if 2 ≤ (document.blocks.map Block.key).count (kind, name) then 1 else 0) ∧
      document.firstDeclarations.blocks = Block.declarations 0 [] document.blocks ∧
      lint.check document.firstDeclarations app = [] ∧
      ∀ kind name, document.firstDeclarations.lookup kind name = document.lookup kind name := by
  refine ⟨check_eq_map document app, fun kind name ↦ ?_, document.blocks_firstDeclarations,
    check_firstDeclarations document app, document.lookup_firstDeclarations⟩
  rw [Block.count_declarations, List.nil_append]
  exact if_congr (and_iff_right (Nat.zero_le 1)) rfl rfl

end Lint.DuplicateBlock

end AppManifest
