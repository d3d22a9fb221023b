import AppManifest.Document.Source
import AppManifest.Proofs.Document.Records
import AppManifest.Proofs.Value.Plain
/-!
# Documents are read back in normal form

The compact text of a document is read as the document with each field value in normal form
(`Document.reads_back_normal_form`): versions, names, blocks and field keys stay as they are and in
their order. So the document itself comes back exactly if its values are plain.

The text of a document is the text of its JSON form, and the readers follow it record by record.
Each record takes one bracket, and so does each list, which leaves the values of fields the room
that the nesting of the JSON form asks for.
-/

namespace AppManifest

open Json

/-! ### Normal forms -/

/-- The block with its field values in normal form. -/
def Block.normalize (block : Block) : Block :=
  { block with fields := Value.normalizeFields block.fields }

/-- The package with all field values in normal form. -/
def Package.normalize (package : Package) : Package :=
  { package with blocks := package.blocks.map Block.normalize }

/-- The document with all field values in normal form. -/
def Document.normalize (document : Document) : Document :=
  { document with packages := document.packages.map Package.normalize }

/-- Every number in the document is finite, and no object looks like a reference. -/
def Document.Plain (document : Document) : Prop :=
  ∀ block ∈ document.blocks, Value.fieldsPlain block.fields

/-- A list is kept by what keeps each of its elements. -/
theorem map_eq_self_iff {α : Type} {f : α → α} {xs : List α} :
    xs.map f = xs ↔ ∀ x ∈ xs, f x = x := by
  conv_lhs => rhs; rw [← List.map_id xs]
  exact List.map_inj_left

theorem Block.normalize_eq_self_iff {block : Block} :
    block.normalize = block ↔ Value.fieldsPlain block.fields := by
  rw [← Value.normalizeFields_eq_self_iff, normalize]
  cases block
  simp

theorem Package.normalize_eq_self_iff {package : Package} :
    package.normalize = package ↔ ∀ block ∈ package.blocks, Value.fieldsPlain block.fields := by
  simp only [← Block.normalize_eq_self_iff, normalize]
  cases package
  simp [map_eq_self_iff]

/-- **The documents in normal form are the plain ones.** So a document is read back as it was
written exactly if it is plain. -/
theorem Document.normalize_eq_self_iff {document : Document} :
    document.normalize = document ↔ document.Plain := by
  simp only [Plain, blocks, List.forall_mem_flatMap, ← Package.normalize_eq_self_iff, normalize]
  cases document
  simp [map_eq_self_iff]

/-! ### Blocks -/

namespace Block

theorem takes_members (block : Block) {depth : Nat} (keyed : block.fields.WellKeyed)
    (h : (object (Value.toMembers block.fields)).nesting ≤ depth) :
    Takes (readMember depth)
      ([("kind", string block.kind), ("name", string block.name),
        ("fields", object (Value.toMembers block.fields))].map textOf) ⟨none, none, none⟩
      ⟨some block.kind, some block.name, some (Value.normalizeFields block.fields)⟩ := by
  have hkind : Reads Ends (readMember depth ⟨none, none, none⟩ "kind")
      (':' :: stringChars block.kind) ⟨some block.kind, none, none⟩ :=
    (reads_onlyOnce (reads_stringValue block.kind) "kind").map
      fun kind ↦ Draft.mk (some kind) none none
  have hname : Reads Ends (readMember depth ⟨some block.kind, none, none⟩ "name")
      (':' :: stringChars block.name) ⟨some block.kind, some block.name, none⟩ :=
    (reads_onlyOnce (reads_stringValue block.name) "name").map
      fun name ↦ Draft.mk (some block.kind) (some name) none
  have hfields : Reads Ends (readMember depth ⟨some block.kind, some block.name, none⟩ "fields")
      (':' :: (object (Value.toMembers block.fields)).compactChars)
      ⟨some block.kind, some block.name, some (Value.normalizeFields block.fields)⟩ :=
    (reads_onlyOnce (reads_fieldBag keyed h) "fields").map
      fun fields ↦ Draft.mk (some block.kind) (some block.name) (some fields)
  exact .cons hkind (.cons hname (.cons hfields (.nil _)))

/-- **A block is read with its fields in normal form.** Its kind and its name are read as they are.
-/
theorem reads_toJson {block : Block} (keyed : block.fields.WellKeyed) {depth : Nat}
    (h : block.toJson.nesting ≤ depth) :
    Reads Ends (Block.read depth) block.toJson.compactChars block.normalize := by
  obtain ⟨room, rfl, hroom⟩ := exists_room_of_object h
  have hfields := hroom ("fields", object (Value.toMembers block.fields)) (by simp)
  exact reads_record (block.takes_members keyed hfields) fun _ ↦ rfl

end Block

/-! ### Packages and documents -/

/-- The JSON form of a record of an optional text and a list. -/
def listing (first second : String) (text : Option String) (items : List Json) : Json :=
  object (Members.given first string text ++ [(second, array items)])

/-- Members of which the first may be left out are read in either case. -/
theorem takes_given {β : Type} {first second : String} {text : Option String} {tree : Json} {a : β}
    {member : Option (Option String) × Option β → String →
      Reader (Option (Option String) × Option β)}
    (hfirst : ∀ s, Reads Ends (member (none, none) first) (':' :: stringChars s)
      (some (some s), none))
    (hsecond : ∀ seen, Reads Ends (member (seen, none) second) (':' :: tree.compactChars)
      (seen, some a)) :
    Takes member ((Members.given first string text ++ [(second, tree)]).map textOf) (none, none)
      (text.map some, some a) := by
  cases text with
  | none => exact .cons (hsecond none) (.nil _)
  | some s => exact .cons (hfirst s) (.cons (hsecond (some (some s))) (.nil _))

/-- **A record of an optional text and a list is read from both**, if each element of the list is
read where there is room for it. What is built from them is `b`. -/
theorem reads_listing {α β γ : Type} {expected first second : String} {text : Option String}
    {values : List α} {write : α → Json} {image : α → β} {item : Nat → Reader β}
    {elements : Nat → Reader γ} {b : Option String → List β → γ}
    {member : Nat → Option (Option String) × Option (List β) → String →
      Reader (Option (Option String) × Option (List β))} {depth : Nat}
    (h : (listing first second text (values.map write)).nesting ≤ depth)
    (hfirst : ∀ room, member room (none, none) first =
      fun c ↦ onlyOnce first none optionalString c >>= fun read ↦ .ok ((some read.1, none), read.2))
    (hsecond : ∀ room seen, member room (seen, none) second =
      fun c ↦ onlyOnce second none (listOf room item) c >>= fun read ↦
        .ok ((seen, some read.1), read.2))
    (hitems : ∀ a ∈ values, ∀ room, (write a).nesting ≤ room → Starts (write a).compactChars ∧
      Reads Ends (item room) (write a).compactChars (image a)) :
    Reads Ends
      (record expected depth elements (none, none) member fun seen _ ↦
        .ok (b (seen.1.getD none) (seen.2.getD [])))
      (listing first second text (values.map write)).compactChars (b text (values.map image)) := by
  obtain ⟨room, rfl, hroom⟩ := exists_room_of_object h
  obtain ⟨inner, rfl, hinner⟩ :=
    exists_room_of_array (hroom (second, array (values.map write)) (by simp))
  have hlist : Reads Ends (listOf (inner + 1) item) (array (values.map write)).compactChars
      (values.map image) :=
    reads_listOf_map fun a hmem ↦ hitems a hmem inner (hinner _ (List.mem_map_of_mem hmem))
  have htext : ∀ s, Reads Ends (member (inner + 1) (none, none) first) (':' :: stringChars s)
      (some (some s), none) := fun s ↦ by
    rw [hfirst]
    exact (reads_onlyOnce (reads_optionalString s) first).map fun name ↦ (some name, none)
  have hrest : ∀ seen, Reads Ends (member (inner + 1) (seen, none) second)
      (':' :: (array (values.map write)).compactChars) (seen, some (values.map image)) :=
    fun seen ↦ by
      rw [hsecond]
      exact (reads_onlyOnce hlist second).map fun found ↦ (seen, some found)
  refine reads_record (takes_given htext hrest) fun _ ↦ ?_
  cases text <;> rfl

/-- **A package is read with all fields in normal form.** Its blocks keep their order. -/
theorem Package.reads_toJson {package : Package}
    (keyed : ∀ block ∈ package.blocks, block.fields.WellKeyed) {depth : Nat}
    (h : package.toJson.nesting ≤ depth) :
    Reads Ends (Package.read depth) package.toJson.compactChars package.normalize := by
  refine reads_listing (b := Package.mk) h (fun _ ↦ rfl) (fun _ _ ↦ rfl) ?_
  intro block hmem room hroom
  exact ⟨starts_object _, Block.reads_toJson (keyed block hmem) hroom⟩

namespace Document

/-- **A document is read with all fields in normal form.** The levels of brackets that it takes are
those of its tree, however they are spread over packages, blocks and fields. -/
theorem reads_toJson {document : Document} (keyed : document.WellKeyed) {depth : Nat}
    (h : document.toJson.nesting ≤ depth) :
    Reads Ends (Document.read depth) document.toJson.compactChars document.normalize := by
  refine reads_listing (b := Document.mk) h (fun _ ↦ rfl) (fun _ _ ↦ rfl) ?_
  intro package hmem room hroom
  have hkeyed : ∀ block ∈ package.blocks, block.fields.WellKeyed := fun block hblock ↦
    keyed block (List.mem_flatMap.2 ⟨package, hmem, hblock⟩)
  exact ⟨starts_object _, Package.reads_toJson hkeyed hroom⟩

theorem ofText_compact {document : Document} (keyed : document.WellKeyed)
    (h : document.toJson.nesting ≤ nestingLimit) :
    Document.ofText .json document.toJson.compact = .ok document.normalize := by
  have hread : readDocument document.toJson.compact = .ok document.normalize :=
    readAll_ofList (reads_toJson keyed h)
  simp only [ofText, hread]

/-- **A document is read back from its compact text in normal form**, and so as itself exactly if it
is plain: for every document without repeated keys in its field bags whose JSON form does not open
more lists and objects at a time than the reader has room for. -/
theorem reads_back_normal_form (document : Document) (keyed : document.WellKeyed)
    (h : document.toJson.nesting ≤ nestingLimit) :
    Document.ofText .json document.toJson.compact = .ok document.normalize ∧
      (Document.ofText .json document.toJson.compact = .ok document ↔ document.Plain) := by
  have hread := ofText_compact keyed h
  refine ⟨hread, ?_⟩
  rw [hread, Except.ok.injEq]
  exact normalize_eq_self_iff

/-- A number that is not finite and an object that looks like a reference are what does not come
back. A negative zero does, and so does an object that has a reference under a `$kind`. -/
theorem document_is_not_read_back :
    let negativeZero : Value := .float (.finite true 0)
    let hinted : Value := .object [("$ref", .string "a"), ("$kind", .reference ⟨"b", none⟩)]
    let mistaken : Value := .object [("$kind", .float .nan), ("$ref", .string "c")]
    let document : Document := ⟨some "1", [⟨none, [⟨"application", "app",
      [("rates", .list [.float (.infinity true), negativeZero]), ("hinted", hinted),
        ("mistaken", mistaken)]⟩]⟩]⟩
    Document.ofText .json document.toJson.compact =
        .ok ⟨some "1", [⟨none, [⟨"application", "app",
          [("rates", .list [.null, negativeZero]), ("hinted", hinted),
            ("mistaken", .reference ⟨"c", none⟩)]⟩]⟩]⟩ ∧
      Document.ofText .json document.toJson.compact ≠ .ok document := by
  intro negativeZero hinted mistaken document
  have keyed : document.WellKeyed := by
    simp [document, WellKeyed, blocks, Fields.WellKeyed, Value.DistinctKeys, Value.fieldsDistinct,
      Value.itemsDistinct, negativeZero, hinted, mistaken]
  have hnesting : document.toJson.nesting ≤ nestingLimit := by decide
  have hplain : ¬document.Plain := by
    simp [document, Plain, blocks, Value.fieldsPlain, Value.Plain, Value.itemsPlain,
      Binary64.isFinite]
  obtain ⟨hread, hself⟩ := reads_back_normal_form document keyed hnesting
  exact ⟨hread, fun h ↦ hplain (hself.1 h)⟩

end Document

end AppManifest
