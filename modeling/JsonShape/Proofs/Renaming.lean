import JsonShape.Proofs.Declared
import JsonShape.Render.Format

/-!
# Renaming handles

Handles are where records happen to stand in a table, and no output shows one. `Outline.Renames`
says that an outline is another one with its handles renamed, different ones differently, where
every handle that occurs is declared. `Outline.Renames.render_eq` says that the two are written
alike in every format : the same text, or the same fault.
-/

namespace JsonShape

/-- The shape with its handles renamed. -/
def Shape.rename (σ : Int → Int) : Shape → Shape
  | .record handle => .record (σ handle)
  | .array element => .array (element.rename σ)
  | .optional inner => .optional (inner.rename σ)
  | s => s

/-- The record with the handles in its fields renamed. -/
def Record.rename (σ : Int → Int) (r : Record) : Record :=
  r.map (FieldOf.map (Shape.rename σ))

/-- The declaration with its own handle and those in its fields renamed. -/
def Declaration.rename (σ : Int → Int) (d : Declaration) : Declaration :=
  ⟨d.name, σ d.handle, Record.rename σ d.record⟩

/-- The handles that are declared. -/
def Outline.handles (x : Outline) : List Int :=
  x.declarations.map Declaration.handle

/-- The second outline is the first one with its handles renamed. Every handle that occurs is
declared, and different ones keep different. -/
structure Outline.Renames (σ : Int → Int) (x y : Outline) : Prop where
  root : y.root = x.root.rename σ
  declarations : y.declarations = x.declarations.map (Declaration.rename σ)
  injective : ∀ h ∈ x.handles, ∀ k ∈ x.handles, σ h = σ k → h = k
  root_declared : ∀ h ∈ x.root.handles, h ∈ x.handles
  mentioned_declared : ∀ d ∈ x.declarations, ∀ h ∈ RecordTable.mentioned d.record, h ∈ x.handles

section

variable {σ : Int → Int}

@[simp] theorem Shape.handles_rename (s : Shape) : (s.rename σ).handles = s.handles.map σ := by
  induction s with
  | array e ih => exact ih
  | optional x ih => exact ih
  | _ => rfl

@[simp] theorem Shape.isOptional_rename (s : Shape) : (s.rename σ).isOptional = s.isOptional := by
  cases s <;> rfl

@[simp] theorem Go.isNilable_rename (s : Shape) : Go.isNilable (s.rename σ) = Go.isNilable s := by
  cases s <;> rfl

theorem Shape.rename_eq_undefined {s : Shape} : s.rename σ = .undefined ↔ s = .undefined := by
  cases s <;> simp [rename]

theorem RecordTable.mentioned_rename (r : Record) :
    mentioned (Record.rename σ r) = (mentioned r).map σ := by
  induction r with
  | nil => rfl
  | cons f r ih =>
    have hcons : ∀ (g : Field) (q : Record), mentioned (g :: q) = g.shape.handles ++ mentioned q :=
      fun _ _ => rfl
    have hrename : Record.rename σ (f :: r) = f.map (Shape.rename σ) :: Record.rename σ r := rfl
    rw [hrename, hcons, hcons, ih, List.map_append, FieldOf.map_shape, Shape.handles_rename]

theorem RecordTable.mem_mentioned {r : Record} {f : Field} (hf : f ∈ r) {h : Int}
    (hh : h ∈ f.shape.handles) : h ∈ mentioned r :=
  List.mem_flatMap.2 ⟨f, hf, hh⟩

end

namespace Outline.Renames

variable {σ : Int → Int} {x y : Outline}

/-! ## Names -/

theorem find?_rename (h : Renames σ x y) {k : Int} (hk : k ∈ x.handles) :
    y.declarations.find? (fun d => d.handle == σ k) =
      (x.declarations.find? fun d => d.handle == k).map (Declaration.rename σ) := by
  rw [h.declarations]
  refine find?_map_congr fun d hd => ?_
  have hiff : σ d.handle = σ k ↔ d.handle = k :=
    ⟨h.injective _ (List.mem_map_of_mem hd) k hk, congrArg σ⟩
  simp [Declaration.rename, beq_eq_beq, hiff]

/-- A declared handle has the same name under its new handle. -/
theorem exists_nameOf? (h : Renames σ x y) {k : Int} (hk : k ∈ x.handles) :
    ∃ name, x.nameOf? k = some name ∧ y.nameOf? (σ k) = some name := by
  obtain ⟨d, hd⟩ : ∃ d, x.declarations.find? (fun d => d.handle == k) = some d := by
    obtain ⟨d, hd, hdk⟩ := List.mem_map.1 hk
    exact Option.isSome_iff_exists.1 (List.find?_isSome.2 ⟨d, hd, by simp [hdk]⟩)
  refine ⟨d.name, by rw [nameOf?, hd]; rfl, ?_⟩
  rw [nameOf?, h.find?_rename hk, hd]
  rfl

theorem names_rename (h : Renames σ x y) :
    y.declarations.map Declaration.name = x.declarations.map Declaration.name := by
  rw [h.declarations, List.map_map]
  rfl

theorem field_declared (h : Renames σ x y) {d : Declaration} (hd : d ∈ x.declarations) {f : Field}
    (hf : f ∈ d.record) : ∀ k ∈ f.shape.handles, k ∈ x.handles :=
  fun k hk => h.mentioned_declared d hd k (RecordTable.mem_mentioned hf hk)

/-! ## Go -/

theorem go_typeText (h : Renames σ x y) {s : Shape} (hs : ∀ k ∈ s.handles, k ∈ x.handles) :
    Go.typeText y (s.rename σ) = Go.typeText x s := by
  induction s with
  | record k =>
    obtain ⟨name, hx, hy⟩ := h.exists_nameOf? (hs k (by simp [Shape.handles]))
    simp only [Shape.rename, Go.typeText, hx, hy]
  | array e ih => simp only [Shape.rename, Go.typeText, ih hs]
  | optional e ih => simp only [Shape.rename, Go.typeText, ih hs, Go.isNilable_rename]
  | _ => rfl

theorem go_row (h : Renames σ x y) {f : Field} (hf : ∀ k ∈ f.shape.handles, k ∈ x.handles) :
    Go.row y (f.map (Shape.rename σ)) = Go.row x f := by
  simp only [Go.row, FieldOf.map_name, FieldOf.map_key, FieldOf.map_shape, h.go_typeText hf]

theorem go_declarationLines (h : Renames σ x y) {d : Declaration} (hd : d ∈ x.declarations) :
    Go.declarationLines y (d.rename σ) = Go.declarationLines x d := by
  have hrows : (d.rename σ).record.mapM (Go.row y) = d.record.mapM (Go.row x) :=
    mapM_map_congr fun f hf => h.go_row (h.field_declared hd hf)
  simp only [Go.declarationLines, hrows]
  rfl

theorem go_write (h : Renames σ x y) : Go.write y = Go.write x := by
  have hroot : Go.rootType y = Go.rootType x := by
    simp only [Go.rootType, h.root, Shape.rename_eq_undefined, h.go_typeText h.root_declared]
  have hblocks : y.declarations.mapM (Go.declarationLines y) =
      x.declarations.mapM (Go.declarationLines x) := by
    rw [h.declarations]
    exact mapM_map_congr fun d hd => h.go_declarationLines hd
  simp only [Go.write, hroot, hblocks]

/-! ## JSON Schema -/

theorem schemaOf_rename (h : Renames σ x y) {s : Shape} (hs : ∀ k ∈ s.handles, k ∈ x.handles) :
    JsonSchema.schemaOf y (s.rename σ) = JsonSchema.schemaOf x s := by
  induction s with
  | record k =>
    obtain ⟨name, hx, hy⟩ := h.exists_nameOf? (hs k (by simp [Shape.handles]))
    simp only [Shape.rename, JsonSchema.schemaOf, hx, hy]
  | array e ih => simp only [Shape.rename, JsonSchema.schemaOf, ih hs]
  | optional e ih => simp only [Shape.rename, JsonSchema.schemaOf, ih hs]
  | _ => rfl

theorem property_rename (h : Renames σ x y) {f : Field}
    (hf : ∀ k ∈ f.shape.handles, k ∈ x.handles) :
    JsonSchema.property y (f.map (Shape.rename σ)) = JsonSchema.property x f := by
  simp only [JsonSchema.property, FieldOf.map_key, FieldOf.map_shape, h.schemaOf_rename hf]

theorem requiredKeys_rename (r : Record) :
    JsonSchema.requiredKeys (Record.rename σ r) = JsonSchema.requiredKeys r := by
  unfold JsonSchema.requiredKeys Record.rename
  rw [List.filter_map, List.map_map]
  congr 1
  refine List.filter_congr fun f _ => ?_
  simp

theorem definition_rename (h : Renames σ x y) {d : Declaration} (hd : d ∈ x.declarations) :
    JsonSchema.definition y (d.rename σ) = JsonSchema.definition x d := by
  have hproperties : (d.rename σ).record.mapM (JsonSchema.property y) =
      d.record.mapM (JsonSchema.property x) :=
    mapM_map_congr fun f hf => h.property_rename (h.field_declared hd hf)
  have hrequired : JsonSchema.requiredKeys (d.rename σ).record =
      JsonSchema.requiredKeys d.record := requiredKeys_rename d.record
  simp only [JsonSchema.definition, hproperties, hrequired]
  rfl

theorem jsonSchema_write (h : Renames σ x y) : JsonSchema.write y = JsonSchema.write x := by
  have hdefinitions : y.declarations.mapM (JsonSchema.definition y) =
      x.declarations.mapM (JsonSchema.definition x) := by
    rw [h.declarations]
    exact mapM_map_congr fun d hd => h.definition_rename hd
  have hroot : JsonSchema.schemaOf y y.root = JsonSchema.schemaOf x x.root := by
    rw [h.root, h.schemaOf_rename h.root_declared]
  simp only [JsonSchema.write, JsonSchema.build, hdefinitions, hroot]

/-! ## Pydantic models -/

theorem pydantic_typeText (h : Renames σ x y) {s : Shape}
    (hs : ∀ k ∈ s.handles, k ∈ x.handles) :
    Pydantic.typeText y (s.rename σ) = Pydantic.typeText x s := by
  induction s with
  | record k =>
    obtain ⟨name, hx, hy⟩ := h.exists_nameOf? (hs k (by simp [Shape.handles]))
    simp only [Shape.rename, Pydantic.typeText, hx, hy]
  | array e ih => simp only [Shape.rename, Pydantic.typeText, ih hs]
  | optional e ih => simp only [Shape.rename, Pydantic.typeText, ih hs]
  | _ => rfl

/-- The visited handles and the listed declarations are those of the outline. -/
def Within (x : Outline) (p : Pydantic.Progress) : Prop :=
  (∀ k ∈ p.visited, k ∈ x.handles) ∧ ∀ d ∈ p.listed, d ∈ x.declarations

/-- The second progress is the first one with its handles renamed. -/
def Follows (σ : Int → Int) (p q : Pydantic.Progress) : Prop :=
  q.visited = p.visited.map σ ∧ q.listed = p.listed.map (Declaration.rename σ)

/-- Steps that follow each other do so over a whole list of handles. -/
theorem foldl_follows {f g : Pydantic.Progress → Int → Pydantic.Progress} {ks : List Int}
    (hstep : ∀ p q k, k ∈ ks → Within x p → Follows σ p q →
      Within x (f p k) ∧ Follows σ (f p k) (g q (σ k))) {p q : Pydantic.Progress}
    (hp : Within x p) (hpq : Follows σ p q) :
    Within x (ks.foldl f p) ∧ Follows σ (ks.foldl f p) ((ks.map σ).foldl g q) := by
  induction ks generalizing p q with
  | nil => exact ⟨hp, hpq⟩
  | cons k ks ih =>
    obtain ⟨hp', hpq'⟩ := hstep p q k (List.mem_cons_self ..) hp hpq
    exact ih (fun p q l hl => hstep p q l (List.mem_cons_of_mem _ hl)) hp' hpq'

theorem visit_follows (h : Renames σ x y) (fuel : Nat) {p q : Pydantic.Progress} {k : Int}
    (hk : k ∈ x.handles) (hp : Within x p) (hpq : Follows σ p q) :
    Within x (Pydantic.visit x.declarations fuel p k) ∧
      Follows σ (Pydantic.visit x.declarations fuel p k)
        (Pydantic.visit y.declarations fuel q (σ k)) := by
  induction fuel generalizing p q k with
  | zero => exact ⟨hp, hpq⟩
  | succ fuel ih =>
    have hvisited : q.visited.contains (σ k) = p.visited.contains k := by
      have hiff : σ k ∈ p.visited.map σ ↔ k ∈ p.visited := by
        refine ⟨fun hmem => ?_, List.mem_map_of_mem⟩
        obtain ⟨l, hl, he⟩ := List.mem_map.1 hmem
        exact h.injective l (hp.1 l hl) k hk he ▸ hl
      simp only [List.contains_eq_mem, hpq.1, hiff]
    rw [Pydantic.visit, Pydantic.visit, hvisited, h.find?_rename hk]
    by_cases hdone : p.visited.contains k = true
    · rw [if_pos hdone, if_pos hdone]
      exact ⟨hp, hpq⟩
    rw [if_neg hdone, if_neg hdone]
    cases hd : x.declarations.find? fun d => d.handle == k with
    | none => exact ⟨hp, hpq⟩
    | some d =>
      have hmem := List.mem_of_find?_eq_some hd
      have hstart : Within x { p with visited := k :: p.visited } := by
        refine ⟨fun l hl => ?_, hp.2⟩
        rcases List.mem_cons.1 hl with rfl | hl
        · exact hk
        · exact hp.1 l hl
      have hfollows : Follows σ { p with visited := k :: p.visited }
          { q with visited := σ k :: q.visited } := ⟨by simp [hpq.1], hpq.2⟩
      obtain ⟨hin, hout⟩ := foldl_follows
        (fun p q l (hl : l ∈ RecordTable.mentioned d.record) =>
          ih (h.mentioned_declared d hmem l hl)) hstart hfollows
      rw [← RecordTable.mentioned_rename] at hout
      refine ⟨⟨hin.1, fun e he => ?_⟩, hout.1, ?_⟩
      · rcases List.mem_append.1 he with he | he
        · exact hin.2 e he
        · exact List.mem_singleton.1 he ▸ hmem
      · rw [List.map_append, ← hout.2]
        rfl

theorem dependencyOrder_rename (h : Renames σ x y) :
    Pydantic.dependencyOrder y.declarations =
        (Pydantic.dependencyOrder x.declarations).map (Declaration.rename σ) ∧
      ∀ d ∈ Pydantic.dependencyOrder x.declarations, d ∈ x.declarations := by
  have hlength : y.declarations.length = x.declarations.length := by
    rw [h.declarations, List.length_map]
  have hhandles : y.declarations.map Declaration.handle = x.handles.map σ := by
    rw [h.declarations, Outline.handles, List.map_map, List.map_map]
    rfl
  obtain ⟨hin, hout⟩ := foldl_follows
    (fun p q k (hk : k ∈ x.handles) => h.visit_follows (x.declarations.length + 1) hk)
    (p := {}) (q := {}) ⟨by simp, by simp⟩ ⟨rfl, rfl⟩
  rw [Pydantic.dependencyOrder, Pydantic.dependencyOrder, hhandles, hlength]
  exact ⟨hout.2, hin.2⟩

theorem fieldLine_rename (h : Renames σ x y) (classNames : List String) {f : Field}
    (hf : ∀ k ∈ f.shape.handles, k ∈ x.handles) :
    Pydantic.fieldLine y classNames (f.map (Shape.rename σ)) =
      Pydantic.fieldLine x classNames f := by
  simp only [Pydantic.fieldLine, FieldOf.map_name, FieldOf.map_key, FieldOf.map_shape,
    h.pydantic_typeText hf, Shape.isOptional_rename]

theorem classLines_rename (h : Renames σ x y) (classNames : List String) {d : Declaration}
    (hd : d ∈ x.declarations) :
    Pydantic.classLines y classNames (d.rename σ) = Pydantic.classLines x classNames d := by
  have hfields : (d.rename σ).record.mapM (Pydantic.fieldLine y classNames) =
      d.record.mapM (Pydantic.fieldLine x classNames) :=
    mapM_map_congr fun f hf => h.fieldLine_rename classNames (h.field_declared hd hf)
  simp only [Pydantic.classLines, hfields]
  rfl

theorem pydantic_write (h : Renames σ x y) : Pydantic.write y = Pydantic.write x := by
  obtain ⟨horder, hmem⟩ := h.dependencyOrder_rename
  have hclasses : ∀ classNames,
      (Pydantic.dependencyOrder y.declarations).mapM (Pydantic.classLines y classNames) =
        (Pydantic.dependencyOrder x.declarations).mapM (Pydantic.classLines x classNames) := by
    intro classNames
    rw [horder]
    exact mapM_map_congr fun d hd => h.classLines_rename classNames (hmem d hd)
  have hroot : Pydantic.typeText y y.root = Pydantic.typeText x x.root := by
    rw [h.root, h.pydantic_typeText h.root_declared]
  simp only [Pydantic.write, h.names_rename, hclasses, hroot]

/-! ## All formats -/

theorem write_rename (h : Renames σ x y) (f : OutputFormat) : f.write y = f.write x := by
  cases f with
  | go => exact h.go_write
  | pydantic => exact h.pydantic_write
  | jsonSchema => exact h.jsonSchema_write

/-- Outlines that differ in their handles only are written alike, whatever the format, with the same
events. -/
theorem render_eq (h : Renames σ x y) (format : String) (validate : Bool) :
    render format validate y = render format validate x := by
  have hlength : y.declarations.length = x.declarations.length := by
    rw [h.declarations, List.length_map]
  simp only [render, h.write_rename, hlength]

end Outline.Renames

end JsonShape
