import XQueryLexer.Output
import XQueryLexer.Proofs.Naming.Pass
import XQueryLexer.Proofs.Nesting.Forest
import XQueryLexer.Proofs.Output.Reading

/-! Forests read back from the text that they are dumped as. -/

namespace XQueryLexer

variable {α β : Type}

/-- Fields from which what they are the fields of can be read, as far as a view of it goes. -/
structure Readable (fields : α → Option Json → List (String × Json))
    (item? : List (String × Json) → Option β) (view : α → β) : Prop where
  /-- The item is read as its view. -/
  item_eq : ∀ item children, item? (fields item children) = some (view item)
  /-- The list inside the item is the only field of its name, and is not there without a list. -/
  children_eq : ∀ item children, (fields item children).lookup "children" = children

/-- From the fields of a token all of it can be read but its place. -/
theorem Token.readable_fields : Readable Token.fields Token.ofFields? Token.unplaced where
  item_eq token children := by
    -- Which fields are there depends on the list and on the mark, and names are found again.
    obtain ⟨value, state, kind, error, span⟩ := token
    cases error <;> cases children <;>
      simp [fields, ofFields?, childrenField, errorField, Json.text?, Json.isSet,
        LexState.ofName?_name, Kind.ofName?_name, unplaced, List.lookup_cons]
  children_eq token children := by
    obtain ⟨value, state, kind, error, span⟩ := token
    cases error <;> cases children <;> simp [fields, childrenField, errorField, List.lookup_cons]

/-- From the fields of a gist all of it can be read. -/
theorem Gist.readable_fields : Readable Gist.fields Gist.ofFields? id where
  item_eq gist children := by
    obtain ⟨value, kind, error⟩ := gist
    -- A field that is left out is one that the reader takes for its default.
    cases error <;> cases children <;>
      simp [fields, ofFields?, childrenField, errorField, Json.text?, Json.isSet,
        Kind.ofName?_name, List.lookup_cons]
  children_eq gist children := by
    obtain ⟨value, kind, error⟩ := gist
    cases error <;> cases children <;> simp [fields, childrenField, errorField, List.lookup_cons]

/-- The forest inside an item is read from the field of that name. -/
theorem Forest.inside?_eq (item? : List (String × Json) → Option β)
    (fields : List (String × Json)) :
    Forest.inside? item? fields =
      match fields.lookup "children" with
      | none => some none
      | some value => (Forest.ofJson? item? value).map some := by
  -- Both look for the first field of the name.
  induction fields with
  | nil => rw [inside?]; rfl
  | cons field rest ih =>
    obtain ⟨name, value⟩ := field
    rw [inside?]
    by_cases same : name = "children"
    · subst same
      simp
    · have other : ("children" == name) = false := by simpa using Ne.symm same
      rw [if_neg same, ih, List.lookup_cons, other]

section

variable {fields : α → Option Json → List (String × Json)}
  {item? : List (String × Json) → Option β} {view : α → β}

mutual

/-- A tree is read from its object. -/
theorem Tree.ofJson?_toJson (readable : Readable fields item? view) : (tree : Tree α) →
    Tree.ofJson? item? (tree.toJson fields) = some (tree.map view)
  | .leaf item => by
    -- Without a field for a list the object is that of a leaf.
    rw [Tree.toJson, Tree.ofJson?, readable.item_eq, Forest.inside?_eq, readable.children_eq]
    rfl
  | .group item inside => by
    -- An empty list is a field as well, so that an empty group is told from a leaf.
    rw [Tree.toJson, Tree.ofJson?, readable.item_eq, Forest.inside?_eq, readable.children_eq]
    simp only [Forest.ofJson?, Forest.ofJsonList?_toJsonList readable inside]
    rfl

/-- A forest is read from the objects of its trees. -/
theorem Forest.ofJsonList?_toJsonList (readable : Readable fields item? view) :
    (forest : Forest α) →
      Forest.ofJsonList? item? (Forest.toJsonList fields forest) = some (Forest.map view forest)
  | [] => rfl
  | tree :: rest => by
    -- The first tree is read from the first object, and the others from the rest.
    rw [Forest.toJsonList, Forest.ofJsonList?, Tree.ofJson?_toJson readable tree,
      Forest.ofJsonList?_toJsonList readable rest]
    rfl

end

/-- A forest is read from the text of its trees. -/
theorem Forest.read?_render (readable : Readable fields item? view) (forest : Forest α) :
    Forest.read? item? (Json.array (Forest.toJsonList fields forest)).render =
      some (Forest.map view forest) := by
  -- The text is read as the value that it renders, and that as the list of trees.
  rw [read?, Json.read?_render, Option.bind_some, ofJson?]
  exact Forest.ofJsonList?_toJsonList readable forest

end

mutual

/-- A changed tree has the object of the tree, if the change is not seen in the fields. -/
theorem Tree.toJson_map {fields : α → Option Json → List (String × Json)} {change : α → α}
    (hidden : ∀ item, fields (change item) = fields item) (tree : Tree α) :
    (tree.map change).toJson fields = tree.toJson fields := by
  cases tree with
  | leaf item => rw [Tree.map, Tree.toJson, Tree.toJson, hidden]
  -- The fields of the head are the same, and those inside are so by the law of forests.
  | group item inside =>
    rw [Tree.map, Tree.toJson, Tree.toJson, hidden, Forest.toJsonList_map hidden inside]

/-- A changed forest has the objects of the forest, if the change is not seen in the fields. -/
theorem Forest.toJsonList_map {fields : α → Option Json → List (String × Json)} {change : α → α}
    (hidden : ∀ item, fields (change item) = fields item) (forest : Forest α) :
    Forest.toJsonList fields (Forest.map change forest) = Forest.toJsonList fields forest := by
  cases forest with
  | nil => rfl
  -- Tree by tree.
  | cons tree rest =>
    rw [Forest.map, Forest.toJsonList, Forest.toJsonList, Tree.toJson_map hidden tree,
      Forest.toJsonList_map hidden rest]

end

namespace Forest

/-- The forest of tokens without places that a text describes, if it does. -/
def ofDump? (text : String) : Option (Forest Token) :=
  read? Token.ofFields? text

/-- The forest of gists that a text describes, if it does. -/
def ofOutlineDump? (text : String) : Option (Forest Gist) :=
  read? Gist.ofFields? text

/-- A dump tells everything about a forest but the places of its tokens, and a dump of its outline
tells everything about the outline: both are read back from their texts, so that two forests are
dumped as the same text only if they are the same up to places, or have the same outline. -/
theorem dumps_faithful :
    (∀ forest, ofDump? (dump forest) = some (map Token.unplaced forest)) ∧
    (∀ forest, ofOutlineDump? (dumpOutline forest) = some (outline forest)) ∧
    (∀ first second, dump first = dump second ↔
      map Token.unplaced first = map Token.unplaced second) ∧
    (∀ first second, dumpOutline first = dumpOutline second ↔ outline first = outline second) := by
  have recovered (forest : Forest Token) :
      ofDump? (dump forest) = some (map Token.unplaced forest) :=
    read?_render Token.readable_fields forest
  have outlined (forest : Forest Token) :
      ofOutlineDump? (dumpOutline forest) = some (outline forest) := by
    rw [ofOutlineDump?, dumpOutline, read?_render Gist.readable_fields, Forest.map_id]
  -- The places of tokens are in none of their fields.
  have hidden (token : Token) : token.unplaced.fields = token.fields := rfl
  have placeless (forest : Forest Token) : dump (map Token.unplaced forest) = dump forest := by
    rw [dump, Forest.toJsonList_map hidden, dump]
  refine ⟨recovered, outlined, fun first second => ⟨fun same => ?_, fun same => ?_⟩,
    fun first second => ⟨fun same => ?_, fun same => ?_⟩⟩
  · have read := recovered first
    rw [same, recovered] at read
    exact (Option.some.inj read).symm
  · rw [← placeless first, same, placeless]
  · have read := outlined first
    rw [same, outlined] at read
    exact (Option.some.inj read).symm
  · rw [dumpOutline, same, dumpOutline]

end Forest

end XQueryLexer
