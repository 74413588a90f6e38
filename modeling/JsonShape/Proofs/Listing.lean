import JsonShape.Proofs.Binding

/-!
# Go declarations are read back

`Go.listing` is what Go declarations say, apart from their layout : the type of the variable, and
for each declared type its name and the name, type and key of each field. `Go.readListing?` reads it
back from the text, line by line. A word ends at a space, and a line at a line feed.

Keys and names are chosen by whoever wrote the value. None of them can imitate the layout
(`readListing?_text`), because what stands in a word is free of spaces and line feeds
(`Go.Solid`) and what stands in a tag is free of quotes and commas. So the text determines the
listing (`go_text_determines_listing`).
-/

namespace JsonShape

open Text

namespace Go

/-! ## Listings -/

/-- A field of a declared type. -/
structure FieldEntry where
  name : String
  type : String
  key : String
deriving DecidableEq, Repr

/-- A declared type with its fields in order. -/
structure TypeEntry where
  name : String
  fields : List FieldEntry
deriving DecidableEq, Repr

/-- The type of the variable and the declared types in order. -/
structure Listing where
  root : String
  types : List TypeEntry
deriving DecidableEq, Repr

/-- A field with the text of its type. -/
def fieldEntry (x : Outline) (f : Field) : Except RenderFault FieldEntry := do
  let type ← typeText x f.shape
  pure ⟨f.name, type, f.key⟩

/-- A declaration with the texts of its fields' types. -/
def typeEntry (x : Outline) (d : Declaration) : Except RenderFault TypeEntry := do
  let fields ← d.record.mapM (fieldEntry x)
  pure ⟨d.name, fields⟩

/-- What the declarations of an outline say. -/
def listing (x : Outline) : Except RenderFault Listing := do
  let root ← rootType x
  let types ← x.declarations.mapM (typeEntry x)
  pure ⟨root, types⟩

/-! ## The reader -/

/-- The lines of a text in which every line is ended by a line feed. -/
def lines? (text : String) : Option (List String) :=
  match (text.toList.splitOn '\n').reverse with
  | [] :: lines => some (lines.reverse.map String.ofList)
  | _ => none

/-- The word between a fixed start and a fixed end, which begins with a space. -/
def framed? (start stop line : String) : Option String :=
  match start.toList.isPrefixOf? line.toList with
  | none => none
  | some rest =>
    if rest.dropWhile (· != ' ') = stop.toList then
      some (String.ofList (rest.takeWhile (· != ' ')))
    else none

/-- What follows the first word and the spaces behind it. -/
def afterWord (cs : List Char) : List Char :=
  (cs.dropWhile (· != ' ')).dropWhile (· == ' ')

/-- The field on a line. -/
def readField? (line : String) : Option FieldEntry :=
  match line.toList with
  | '\t' :: cs =>
    (tagName? (String.ofList (afterWord (afterWord cs)))).map fun key =>
      ⟨String.ofList (cs.takeWhile (· != ' ')),
        String.ofList ((afterWord cs).takeWhile (· != ' ')), key⟩
  | _ => none

/-- Where the reader stands between two lines. -/
inductive Place where
  | outside
  /-- A declaration begins on the next line. -/
  | begins
  | inside (name : String) (fields : List FieldEntry)

/-- The types read so far and the place reached. -/
structure Reader where
  types : List TypeEntry
  place : Place

/-- Reads one line. -/
def Reader.step (r : Reader) (line : String) : Option Reader :=
  match r.place with
  | .outside => if line = "" then some { r with place := .begins } else none
  | .begins =>
    (framed? "type " " struct \x7b" line).map fun name => { r with place := .inside name [] }
  | .inside name fields =>
    if line = "\x7d" then some ⟨r.types ++ [⟨name, fields⟩], .outside⟩
    else (readField? line).map fun f => { r with place := .inside name (fields ++ [f]) }

/-- The listing in a text. -/
def readListing? (text : String) : Option Listing :=
  match lines? text with
  | none | some [] => none
  | some (first :: rest) =>
    match framed? "var data " " // Unmarshal into this type." first,
        rest.foldlM Reader.step ⟨[], .outside⟩ with
    | some root, some ⟨types, .outside⟩ => some ⟨root, types⟩
    | _, _ => none

/-! ## Words -/

/-- The text is a word : it has neither spaces nor line feeds. -/
def Solid (s : String) : Prop :=
  ∀ c ∈ s.toList, c ≠ ' ' ∧ c ≠ '\n'

theorem Solid.append {s t : String} (hs : Solid s) (ht : Solid t) : Solid (s ++ t) := by
  intro c hc
  rw [String.toList_append, List.mem_append] at hc
  exact hc.elim (hs c) (ht c)

theorem solid_of_all {s : String} (h : (s.toList.all fun c => c != ' ' && c != '\n') = true) :
    Solid s := by
  simpa [Solid, List.all_eq_true] using h

theorem solid_of_isIdentifier {s : String} (h : isIdentifier s = true) : Solid s := by
  have hcontinue : ∀ c ∈ s.toList, isIdentifierContinue c = true := by
    unfold isIdentifier at h
    split at h
    · cases h
    · rename_i c rest hs
      obtain ⟨hfirst, hrest⟩ := Bool.and_eq_true_iff.1 h
      rw [hs, List.forall_mem_cons]
      exact ⟨by rw [isIdentifierContinue, hfirst]; rfl, List.all_eq_true.1 hrest⟩
  intro c hc
  have hspace : isIdentifierContinue ' ' = false := rfl
  have hbreak : isIdentifierContinue '\n' = false := rfl
  constructor
  · rintro rfl
    cases (hcontinue _ hc).symm.trans hspace
  · rintro rfl
    cases (hcontinue _ hc).symm.trans hbreak

theorem solid_numberText (i : Nat) : Solid (RecordTable.numberText i) := by
  intro c hc
  have hdigit := RecordTable.isDigit_of_mem_numberText hc
  constructor <;>
  · rintro rfl
    cases hdigit

theorem solid_typeOf {name : Int → String} {s : Shape} (h : ∀ k ∈ s.handles, Solid (name k)) :
    Solid (typeOf name s) := by
  induction s with
  | record handle => exact (solid_of_all rfl).append (h handle (by simp [Shape.handles]))
  | array element ih => exact (solid_of_all rfl).append (ih h)
  | optional inner ih =>
    rw [typeOf]
    split
    · exact ih h
    · exact (solid_of_all rfl).append (ih h)
  | _ =>
    rw [typeOf]
    exact solid_of_all rfl

theorem typeOf_ne_empty (name : Int → String) (s : Shape) : typeOf name s ≠ "" := by
  induction s with
  | optional inner ih =>
    rw [typeOf]
    split
    · exact ih
    · simp
  | _ => simp [typeOf]

/-! ## Lines -/

theorem toList_unlines_cons (line : String) (rest : List String) :
    (unlines (line :: rest)).toList = line.toList ++ '\n' :: (unlines rest).toList := by
  simp [unlines, String.join_cons]

theorem lines?_unlines {lines : List String} (h : ∀ l ∈ lines, '\n' ∉ l.toList) :
    lines? (unlines lines) = some lines := by
  have hsplit : (unlines lines).toList.splitOn '\n' = lines.map String.toList ++ [[]] := by
    induction lines with
    | nil => rfl
    | cons line rest ih =>
      obtain ⟨hline, hrest⟩ := List.forall_mem_cons.1 h
      rw [toList_unlines_cons, List.splitOn_append_cons_self_of_not_mem hline, ih hrest]
      rfl
  rw [lines?, hsplit]
  simp [Function.comp_def]

/-- A word is read up to the space behind it. -/
theorem takeWhile_solid {s : String} (hs : Solid s) (rest : List Char) :
    (s.toList ++ ' ' :: rest).takeWhile (· != ' ') = s.toList := by
  rw [List.takeWhile_append_of_pos fun c hc => by simpa using (hs c hc).1]
  simp

theorem dropWhile_solid {s : String} (hs : Solid s) (rest : List Char) :
    (s.toList ++ ' ' :: rest).dropWhile (· != ' ') = ' ' :: rest := by
  rw [List.dropWhile_append_of_pos fun c hc => by simpa using (hs c hc).1]
  simp

theorem framed?_eq {start word stop : String} {after : List Char} (hword : Solid word)
    (hstop : stop.toList = ' ' :: after) :
    framed? start stop (start ++ word ++ stop) = some word := by
  have hrest : start.toList.isPrefixOf? (start ++ word ++ stop).toList =
      some (word.toList ++ ' ' :: after) := by
    rw [List.isPrefixOf?_eq_some_iff_append_eq]
    simp [hstop]
  rw [framed?, hrest]
  simp only
  rw [dropWhile_solid hword, takeWhile_solid hword, if_pos hstop.symm, String.ofList_toList]

/-- A padded word and what follows it, as one space or more between the two. -/
theorem toList_padded (w : Nat) (s : String) (rest : List Char) :
    ∃ n, (padded w s).toList ++ ' ' :: rest =
      s.toList ++ ' ' :: (List.replicate n ' ' ++ rest) := by
  refine ⟨w - s.length, ?_⟩
  rw [padded, String.toList_append, String.toList_ofList, List.append_assoc, ← List.cons_append,
    ← List.replicate_succ, List.replicate_succ', List.append_assoc]
  rfl

theorem read_padded (w : Nat) {s : String} (hs : Solid s) {c : Char} (hc : c ≠ ' ')
    (rest : List Char) :
    ((padded w s).toList ++ ' ' :: c :: rest).takeWhile (· != ' ') = s.toList ∧
      afterWord ((padded w s).toList ++ ' ' :: c :: rest) = c :: rest := by
  obtain ⟨n, hn⟩ := toList_padded w s (c :: rest)
  rw [hn, afterWord, takeWhile_solid hs, dropWhile_solid hs, ← List.cons_append,
    ← List.replicate_succ, List.dropWhile_append_of_pos fun d hd => by
      simp [List.eq_of_mem_replicate hd]]
  exact ⟨rfl, by simp [hc]⟩

/-- A row is read back, however wide its columns are. -/
theorem readField?_row (nameWidth typeWidth : Nat) {name type key : String} (hname : Solid name)
    (htype : Solid type) (hne : type ≠ "") (hkey : Taggable key) :
    readField? ("\t" ++ padded nameWidth name ++ " " ++ padded typeWidth type ++ " " ++
      tagText key) = some ⟨name, type, key⟩ := by
  obtain ⟨c, typeRest, hchars⟩ : ∃ c rest, type.toList = c :: rest :=
    List.exists_cons_of_ne_nil fun h => hne (String.toList_eq_nil_iff.1 h)
  have hc : c ≠ ' ' := (htype c (by simp [hchars])).1
  obtain ⟨tagRest, htag⟩ : ∃ rest, (tagText key).toList = '\x60' :: rest := by
    simp [tagText]
  obtain ⟨afterType, hpadded⟩ : ∃ rest,
      (padded typeWidth type).toList ++ ' ' :: (tagText key).toList = c :: rest := by
    simp [padded, hchars]
  have hline : ("\t" ++ padded nameWidth name ++ " " ++ padded typeWidth type ++ " " ++
      tagText key).toList = '\t' :: ((padded nameWidth name).toList ++ ' ' :: c :: afterType) := by
    rw [← hpadded]
    simp
  obtain ⟨hfirst, hsecond⟩ := read_padded nameWidth hname hc afterType
  obtain ⟨htypeWord, hlast⟩ := read_padded typeWidth htype (c := '\x60') (by decide) tagRest
  rw [← htag, hpadded] at htypeWord hlast
  rw [readField?, hline]
  simp only [hfirst, hsecond, htypeWord, hlast, String.ofList_toList, tagName?_tagText hkey,
    Option.map_some]

/-! ## Blocks -/

/-- The entry of a field, its records named by `name`. -/
def entryOf (name : Int → String) (f : Field) : FieldEntry :=
  ⟨f.name, typeOf name f.shape, f.key⟩

theorem Reader.step_field {types : List TypeEntry} {name line : String} {fields : List FieldEntry}
    {f : FieldEntry} (h : readField? line = some f) :
    Reader.step ⟨types, .inside name fields⟩ line = some ⟨types, .inside name (fields ++ [f])⟩ := by
  have hline : line ≠ "\x7d" := by
    rintro rfl
    cases h
  simp [Reader.step, hline, h]

theorem Reader.foldlM_append {a b c : Reader} {before after : List String}
    (hbefore : before.foldlM Reader.step a = some b)
    (hafter : after.foldlM Reader.step b = some c) :
    (before ++ after).foldlM Reader.step a = some c := by
  rw [List.foldlM_append, hbefore]
  exact hafter

theorem Reader.foldlM_fields {α : Type} {line : α → String} {entry : α → FieldEntry}
    {types : List TypeEntry} {name : String} {fields : List FieldEntry} {as : List α}
    (h : ∀ a ∈ as, readField? (line a) = some (entry a)) :
    (as.map line).foldlM Reader.step ⟨types, .inside name fields⟩ =
      some ⟨types, .inside name (fields ++ as.map entry)⟩ := by
  induction as generalizing fields with
  | nil => simp
  | cons a as ih =>
    obtain ⟨ha, has⟩ := List.forall_mem_cons.1 h
    rw [List.map_cons, List.foldlM_cons, Reader.step_field ha]
    exact (ih has).trans (by simp)

variable {x : Outline}

/-- The words of an outline are free of spaces and line feeds, and its fields can be written. -/
structure Legible (x : Outline) : Prop where
  presentable : x.Presentable
  names : ∀ d ∈ x.declarations, Solid d.name
  writable : ∀ d ∈ x.declarations, ∀ f ∈ d.record, Writable f

namespace Legible

theorem solid_nameAt (h : Legible x) {k : Int} (hk : k ∈ x.handles) : Solid (x.nameAt k) := by
  obtain ⟨d, hd, -, -, hname⟩ := Outline.exists_declaration hk
  rw [hname]
  exact h.names d hd

theorem solid_type (h : Legible x) {d : Declaration} (hd : d ∈ x.declarations) {f : Field}
    (hf : f ∈ d.record) : Solid (typeOf x.nameAt f.shape) :=
  solid_typeOf fun k hk => h.solid_nameAt (h.presentable.field_declared d hd f hf k hk)

/-- The lines of a declaration add its entry to what has been read. -/
theorem foldlM_block (h : Legible x) {d : Declaration} (hd : d ∈ x.declarations)
    (types : List TypeEntry) :
    (block d.name (d.record.map (rowOf x.nameAt))).foldlM Reader.step ⟨types, .outside⟩ =
      some ⟨types ++ [⟨d.name, d.record.map (entryOf x.nameAt)⟩], .outside⟩ := by
  have hheader : ["", "type " ++ d.name ++ " struct \x7b"].foldlM Reader.step ⟨types, .outside⟩ =
      some ⟨types, .inside d.name []⟩ := by
    have hempty : Reader.step ⟨types, .outside⟩ "" = some ⟨types, .begins⟩ := rfl
    have hname : Reader.step ⟨types, .begins⟩ ("type " ++ d.name ++ " struct \x7b") =
        some ⟨types, .inside d.name []⟩ := by
      rw [Reader.step, framed?_eq (h.names d hd) rfl]
      rfl
    simp [hempty, hname]
  refine Reader.foldlM_append (b := ⟨types, .inside d.name (d.record.map (entryOf x.nameAt))⟩)
    (Reader.foldlM_append hheader ?_) rfl
  rw [List.map_map]
  refine Reader.foldlM_fields fun f hf => ?_
  have hwritable := h.writable d hd f hf
  exact readField?_row _ _ (solid_of_isIdentifier hwritable.name.identifier) (h.solid_type hd hf)
    (typeOf_ne_empty _ _) hwritable.key

theorem foldlM_blocks (h : Legible x) (types : List TypeEntry) {ds : List Declaration}
    (hds : ∀ d ∈ ds, d ∈ x.declarations) :
    (ds.flatMap fun d => block d.name (d.record.map (rowOf x.nameAt))).foldlM Reader.step
      ⟨types, .outside⟩ =
      some ⟨types ++ ds.map fun d => ⟨d.name, d.record.map (entryOf x.nameAt)⟩, .outside⟩ := by
  induction ds generalizing types with
  | nil => simp
  | cons d ds ih =>
    obtain ⟨hd, hds⟩ := List.forall_mem_cons.1 hds
    rw [List.flatMap_cons]
    refine (Reader.foldlM_append (h.foldlM_block hd types) (ih _ hds)).trans ?_
    simp

end Legible

/-! ## Texts -/

/-- The text of the variable's type. -/
def rootOf (x : Outline) : String :=
  if x.root = .undefined then "any" else typeOf x.nameAt x.root

/-- The listing of an outline whose records are all declared. -/
def listingOf (x : Outline) : Listing :=
  ⟨rootOf x, x.declarations.map fun d => ⟨d.name, d.record.map (entryOf x.nameAt)⟩⟩

/-- The lines of the declarations of an outline. -/
def textLines (x : Outline) : List String :=
  ("var data " ++ rootOf x ++ " // Unmarshal into this type.") ::
    x.declarations.flatMap fun d => block d.name (d.record.map (rowOf x.nameAt))

theorem text_eq_unlines (x : Outline) : text x = unlines (textLines x) := rfl

theorem length_textLines (x : Outline) : (textLines x).length =
    1 + 3 * x.declarations.length + (x.declarations.flatMap fun d => d.record).length := by
  have hblocks : ∀ ds : List Declaration,
      (ds.flatMap fun d => block d.name (d.record.map (rowOf x.nameAt))).length =
        3 * ds.length + (ds.flatMap fun d => d.record).length := by
    intro ds
    induction ds with
    | nil => rfl
    | cons d ds ih =>
      have hblock : (block d.name (d.record.map (rowOf x.nameAt))).length =
          d.record.length + 3 := by simp [block]
      rw [List.flatMap_cons, List.flatMap_cons, List.length_append, List.length_append, hblock, ih,
        List.length_cons]
      omega
  rw [textLines, List.length_cons, hblocks]
  omega

theorem listing_eq_ok (h : x.Presentable) : listing x = .ok (listingOf x) := by
  have hroot : rootType x = .ok (rootOf x) := by
    rw [rootType, rootOf, typeText_eq_ok h.root_declared]
    split <;> rfl
  have htype : ∀ d ∈ x.declarations,
      typeEntry x d = .ok ⟨d.name, d.record.map (entryOf x.nameAt)⟩ := by
    intro d hd
    rw [typeEntry, mapM_eq_ok fun f hf =>
      show fieldEntry x f = .ok (entryOf x.nameAt f) by
      rw [fieldEntry, typeText_eq_ok (h.field_declared d hd f hf)]
      rfl]
    rfl
  rw [listing, hroot, mapM_eq_ok htype]
  rfl

theorem Legible.solid_root (h : Legible x) : Solid (rootOf x) := by
  rw [rootOf]
  split
  · exact solid_of_all rfl
  · exact solid_typeOf fun k hk => h.solid_nameAt (h.presentable.root_declared k hk)

/-- No word and no tag breaks a line. -/
theorem Legible.line_unbroken (h : Legible x) : ∀ l ∈ textLines x, '\n' ∉ l.toList := by
  have hsolid : ∀ {s : String}, Solid s → '\n' ∉ s.toList := fun hs hc => (hs _ hc).2 rfl
  have hpadded : ∀ (w : Nat) {s : String}, Solid s → '\n' ∉ (padded w s).toList := by
    intro w s hs
    simp [padded, hsolid hs]
  have hrow : ∀ d ∈ x.declarations, ∀ f ∈ d.record, ∀ w v : Nat,
      '\n' ∉ ("\t" ++ padded w f.name ++ " " ++ padded v (typeOf x.nameAt f.shape) ++ " " ++
        tagText f.key).toList := by
    intro d hd f hf w v
    have hwritable := h.writable d hd f hf
    have hname := hpadded w (solid_of_isIdentifier hwritable.name.identifier)
    have htype := hpadded v (h.solid_type hd hf)
    have hkey : '\n' ∉ f.key.toList := fun hc =>
      absurd (isTagChar_iff.2 (hwritable.key.chars _ hc)) (by decide)
    simp [tagText, hname, htype, hkey]
  intro l hl
  rcases List.mem_cons.1 hl with rfl | hl
  · simp [hsolid h.solid_root]
  · obtain ⟨d, hd, hl⟩ := List.mem_flatMap.1 hl
    rw [block, List.map_map] at hl
    simp only [List.cons_append, List.nil_append, List.mem_cons, List.mem_append, List.mem_map,
      List.not_mem_nil, or_false] at hl
    rcases hl with rfl | rfl | ⟨f, hf, rfl⟩ | rfl
    · simp
    · simp [hsolid (h.names d hd)]
    · exact hrow d hd f hf _ _
    · simp

/-- The listing of a legible outline is read back from its text. -/
theorem Legible.readListing?_text (h : Legible x) : readListing? (text x) = some (listingOf x) := by
  rw [readListing?, text_eq_unlines, lines?_unlines h.line_unbroken]
  simp only [textLines]
  rw [framed?_eq h.solid_root rfl, h.foldlM_blocks [] fun _ hd => hd]
  rfl

end Go

/-! ## Declarations of a value -/

theorem Outline.Shows.solid_names {P : Tree → Prop} {stem : String} {T : Tree} {x : Outline}
    (hx : x.Shows P stem T) (hstem : isIdentifier stem = true) :
    ∀ d ∈ x.declarations, Go.Solid d.name := by
  have hname : ∀ name ∈ x.declarations.map Declaration.name, Go.Solid name := by
    have hds := hx.declarations
    rw [RecordTable.declarations] at hds
    cases hfound : x.table.reachable x.root with
    | error fault => simp [hfound] at hds
    | ok found =>
      rw [hfound] at hds
      rw [RecordTable.names_of_declare hds]
      intro name hname
      obtain ⟨i, -, rfl⟩ := List.mem_map.1 hname
      rw [RecordTable.declarationName, hx.stem]
      exact (Go.solid_of_isIdentifier hstem).append (Go.solid_numberText i)
  exact fun d hd => hname _ (List.mem_map_of_mem hd)

/-- What is rendered in Go for a value is the text of a legible outline. -/
theorem legible_of_render {o : Options} {v : Value} {x : Outline} {validate : Bool} {text : String}
    (hstem : isIdentifier o.recordPrefix = true) (h : (inferValue o v).1 = .ok x)
    (htext : (render "go" validate x).1 = .ok text) : Go.Legible x ∧ text = Go.text x := by
  obtain ⟨T, -, hx⟩ := exists_tree_of_inferValue h
  have hwrite := Go.write_eq hx.presentable fun d hd => (hx.wellFormed hd).choose_spec.ne_nil
  rw [Outline.render_go, hwrite, unlessFault_eq_ok] at htext
  refine ⟨⟨hx.presentable, hx.solid_names hstem, fun d hd f hf => ?_⟩, htext.2.symm⟩
  exact Go.fault?_eq_none_iff.1
    (List.findSome?_eq_none_iff.1 htext.1 f (List.mem_flatMap.2 ⟨d, hd, hf⟩))

/-- Go declarations of a value, named by an identifier, have a line for the variable, three for each
declared type and one for each field. The listing of the outline is read back from
them line by line, so two outlines with the same text have the same listing. -/
theorem go_text_determines_listing {o : Options} {v : Value} {x : Outline} {validate : Bool}
    {text : String} (hstem : isIdentifier o.recordPrefix = true)
    (h : (inferValue o v).1 = .ok x) (htext : (render "go" validate x).1 = .ok text) :
    (∃ lines, text = Go.unlines lines ∧ (∀ l ∈ lines, '\n' ∉ l.toList) ∧
      lines.length =
        1 + 3 * x.declarations.length + (x.declarations.flatMap fun d => d.record).length) ∧
    (∃ l, Go.listing x = .ok l ∧ Go.readListing? text = some l) ∧
    ∀ (o' : Options) (v' : Value) (y : Outline) (validate' : Bool),
      isIdentifier o'.recordPrefix = true → (inferValue o' v').1 = .ok y →
      (render "go" validate' y).1 = .ok text → Go.listing y = Go.listing x := by
  obtain ⟨hx, rfl⟩ := legible_of_render hstem h htext
  refine ⟨⟨Go.textLines x, rfl, hx.line_unbroken, Go.length_textLines x⟩,
    ⟨_, Go.listing_eq_ok hx.presentable, hx.readListing?_text⟩, ?_⟩
  intro o' v' y validate' hstem' h' htext'
  obtain ⟨hy, heq⟩ := legible_of_render hstem' h' htext'
  have hread : some (Go.listingOf x) = some (Go.listingOf y) := by
    rw [← hx.readListing?_text, heq, hy.readListing?_text]
  rw [Go.listing_eq_ok hx.presentable, Go.listing_eq_ok hy.presentable, Option.some.inj hread]

/-- Keys that look like parts of the layout : the end of a declaration, the start of another, and
spaces. -/
theorem go_text_determines_listing_braces :
    isIdentifier "S" = true ∧
    ∃ x text, (inferValue {} (.object [(.text "x\x7d type Y",
        .list [.object [(.text "type  Z struct \x7b", .text "a")]])])).1 = .ok x ∧
      (render "go" true x).1 = .ok text ∧
      Go.readListing? text = some ⟨"*S001",
        [⟨"S001", [⟨"XTypeY", "[]*S002", "x\x7d type Y"⟩]⟩,
          ⟨"S002", [⟨"TypeZStruct", "string", "type  Z struct \x7b"⟩]⟩]⟩ := by
  have hidentifier : isIdentifier "S" = true := rfl
  have hrender : (inferValue {} (.object [(.text "x\x7d type Y",
      .list [.object [(.text "type  Z struct \x7b", .text "a")]])])).1.map
        (fun x => ((render "go" true x).1, Go.listing x)) =
      .ok (.ok ("var data *S001 // Unmarshal into this type.\n\ntype S001 struct \x7b\n" ++
        "\tXTypeY []*S002 `json:\"x\x7d type Y,omitempty\"`\n\x7d\n\ntype S002 struct \x7b\n" ++
        "\tTypeZStruct string `json:\"type  Z struct \x7b,omitempty\"`\n\x7d\n"),
        .ok ⟨"*S001", [⟨"S001", [⟨"XTypeY", "[]*S002", "x\x7d type Y"⟩]⟩,
          ⟨"S002", [⟨"TypeZStruct", "string", "type  Z struct \x7b"⟩]⟩]⟩) := by
    decide +kernel
  obtain ⟨x, hx, hpair⟩ := map_eq_ok_iff.1 hrender
  obtain ⟨htext, hlisting⟩ := Prod.mk.inj hpair
  obtain ⟨-, ⟨l, hl, hread⟩, -⟩ := go_text_determines_listing hidentifier hx htext.symm
  obtain rfl := Except.ok.inj (hlisting.trans hl)
  exact ⟨hidentifier, x, _, hx, htext.symm, hread⟩

end JsonShape
