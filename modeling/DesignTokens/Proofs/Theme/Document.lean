import DesignTokens.Proofs.OrdMap
import DesignTokens.Theme.Document

/-!
Documents that are written and read again. Reading gives back what was written, down to the order of
every table: each field that may be left out is read as what it is left out for, and the kind of a
state is told by the fields it is written with. So a document that was read and written is left as
it is by reading and writing it once more.
-/

namespace DesignTokens

/-! ### Tables -/

namespace OrdMap

variable {α β ε : Type}

/-- A table is read back if each of its values is. -/
theorem mapM_map {f : α → β} {g : String → β → Except ε α} {m : OrdMap α}
    (h : ∀ e ∈ m.entries, g e.1 (f e.2) = .ok e.2) : (m.map f).mapM g = .ok m := by
  refine Outcome.map_eq_ok.mpr ⟨m.entries, ?_, ofList_entries m⟩
  simp only [map, mapWith]
  generalize m.entries = es at h
  induction es with
  | nil => rfl
  | cons e rest ih =>
      obtain ⟨hhead, hrest⟩ := List.forall_mem_cons.mp h
      have htail := ih hrest
      rw [List.map_cons, List.mapM_cons, Outcome.bind_eq_ok]
      refine ⟨e, Outcome.map_eq_ok.mpr ⟨e.2, hhead, rfl⟩, ?_⟩
      exact Outcome.bind_eq_ok.mpr ⟨rest, htail, rfl⟩

theorem map_map_self {f : α → β} {g : β → α} (h : ∀ a, g (f a) = a) (m : OrdMap α) :
    (m.map f).map g = m := by
  refine ext ?_
  simp [map, mapWith, Function.comp_def, h]

end OrdMap

/-! ### Fields of objects -/

namespace Value

variable {v w : Value} {m n : OrdMap Value} {name : String}

@[simp] theorem fields?_ofMap (m : OrdMap Value) : (ofMap m).fields? = some m := by
  rw [ofMap, fields?, OrdMap.ofList_entries]

@[simp] theorem items_ofMap (m : OrdMap Value) : (ofMap m).items = .ok m := by
  rw [items, fields?_ofMap]

@[simp] theorem toMap_ofMap (m : OrdMap Value) : (ofMap m).toMap = .ok m := by
  rw [toMap, fields?_ofMap]

theorem field?_of_fields (hm : v.fields? = some m) (name : String) :
    v.field? name = .ok (m.get? name) := by
  simp [field?, items, hm]

theorem fieldOr_of_fields (hm : v.fields? = some m) (name : String) (absent : Value) :
    v.fieldOr name absent = .ok ((m.get? name).getD absent) := by
  simp [fieldOr, field?_of_fields hm]

theorem entry_of_fields (hm : v.fields? = some m) (hw : m.get? name = some w) :
    v.entry name = .ok w := by
  simp [entry, hm, OrdMap.require, hw]

theorem mapField_of_fields (hm : v.fields? = some m) (hn : m.get? name = some (ofMap n)) :
    v.mapField name = .ok n := by
  simp [mapField, fieldOr_of_fields hm, hn]

end Value

/-! ### Assignments -/

theorem Assignment.ofValue_toValue (a : Assignment) : ofValue a.toValue = a := by
  cases a with
  | text s => rfl
  | states values => rw [toValue, Value.ofMap, ofValue, OrdMap.ofList_entries]
  | other v hv => cases v <;> first | rfl | cases hv

@[simp] theorem assignmentsOf_valuesOf (m : OrdMap Assignment) : assignmentsOf (valuesOf m) = m :=
  OrdMap.map_map_self Assignment.ofValue_toValue m

/-! ### Modes -/

theorem ModeState.exists_fields (selector media : Value) :
    ∃ m, (optional selector media).toDocument.fields? = some m ∧
      (optional selector media).toDocument.mentions "selector" = .ok true ∧
      m.get? "selector" = some selector ∧ (m.get? "media").getD .null = media := by
  cases media <;> exact ⟨_, rfl, rfl, rfl, rfl⟩

/-- The fields that a state is written with tell its kind. -/
theorem ModeState.ofDocument_toDocument (state : ModeState) :
    ofDocument state.toDocument = .ok state := by
  cases state with
  | fallback isDefault => cases isDefault <;> rfl
  | optional selector media =>
      obtain ⟨m, hm, hmentions, hselector, hmedia⟩ := exists_fields selector media
      simp [ofDocument, hmentions, Value.entry_of_fields hm hselector, Value.fieldOr_of_fields hm,
        hmedia]

theorem Mode.ofDocument_toDocument (mode : Mode) : ofDocument mode.toDocument = .ok mode := by
  have hfields : ∃ m, mode.toDocument.fields? = some m ∧ m.get? "id" = some mode.id ∧
      m.get? "states" = some (.ofMap (mode.states.map ModeState.toDocument)) :=
    ⟨_, rfl, rfl, rfl⟩
  have hstates : (mode.states.map ModeState.toDocument).mapM (fun _ => ModeState.ofDocument) =
      .ok mode.states :=
    OrdMap.mapM_map fun e _ => e.2.ofDocument_toDocument
  obtain ⟨m, hm, hid, hfield⟩ := hfields
  simp [ofDocument, Value.entry_of_fields hm hid, Value.fieldOr_of_fields hm, hfield, hstates, make,
    mode.id_truthy]

/-! ### Contexts -/

theorem Context.exists_fields (c : Context) : ∃ m, c.toDocument.fields? = some m ∧
    m.get? "id" = some c.id ∧ m.get? "selector" = some c.selector ∧
    m.get? "tokens" = some (.ofMap (valuesOf c.tokens)) ∧
    (m.get? "defaultMode").getD .null = c.defaultMode := by
  obtain ⟨id, selector, tokens, mode⟩ := c
  cases mode <;> exact ⟨_, rfl, rfl, rfl, rfl, rfl⟩

/-- A context keeps its id, whatever name it is stored under. -/
theorem Context.ofDocument_toDocument (name : String) (c : Context) :
    ofDocument name c.toDocument = .ok c := by
  obtain ⟨m, hm, hid, hselector, htokens, hmode⟩ := c.exists_fields
  simp [ofDocument, Value.fieldOr_of_fields hm, hid, Value.entry_of_fields hm hselector,
    Value.mapField_of_fields hm htokens, hmode]

/-! ### Themes -/

theorem Theme.exists_fields (t : Theme) : ∃ m, t.toDocument.fields? = some m ∧
    m.get? "id" = some t.id ∧ m.get? "selector" = some t.selector ∧
    m.get? "tokens" = some (.ofMap (valuesOf t.tokens)) ∧
    m.get? "modes" = some (.ofMap (t.modes.map Mode.toDocument)) ∧
    m.get? "tokenModeMap" = some (.ofMap t.bindings) ∧
    m.get? "contexts" = some (.ofMap (t.contexts.map Context.toDocument)) ∧
    m.get? "referenceTokens" = t.palettes.map fun color => .object [("color", .ofMap color)] := by
  obtain ⟨id, selector, tokens, modes, bindings, contexts, palettes⟩ := t
  cases palettes <;> exact ⟨_, rfl, rfl, rfl, rfl, rfl, rfl, rfl, rfl⟩

theorem Theme.ofDocument_toDocument (t : Theme) : ofDocument t.toDocument = .ok t := by
  obtain ⟨m, hm, hid, hselector, htokens, hmodes, hbindings, hcontexts, hcolors⟩ := t.exists_fields
  have hcontextsRead : (t.contexts.map Context.toDocument).mapM Context.ofDocument =
      .ok t.contexts :=
    OrdMap.mapM_map fun e _ => e.2.ofDocument_toDocument e.1
  have hmodesRead : (t.modes.map Mode.toDocument).mapM (fun _ => Mode.ofDocument) = .ok t.modes :=
    OrdMap.mapM_map fun e _ => e.2.ofDocument_toDocument
  have hpalettes : palettesOf t.toDocument = .ok t.palettes := by
    cases hpalettes : t.palettes with
    | none => simp [palettesOf, Value.field?_of_fields hm, hcolors, hpalettes]
    | some color =>
        have hcolor : (Value.object [("color", .ofMap color)]).mapField "color" = .ok color :=
          Value.mapField_of_fields rfl rfl
        simp [palettesOf, Value.field?_of_fields hm, hcolors, hpalettes, hcolor]
  simp [ofDocument, Value.fieldOr_of_fields hm, hcontexts, hcontextsRead, hpalettes,
    Value.entry_of_fields hm hid, Value.entry_of_fields hm hselector,
    Value.mapField_of_fields hm htokens, hmodes, hmodesRead, Value.mapField_of_fields hm hbindings]

/-! ### Overrides -/

namespace Override

/-- The document of a context of an override; a context without content is written as an empty
one. -/
def contextDocument (tokens? : Option (OrdMap Assignment)) : Value :=
  .object [("tokens", .ofMap (valuesOf (tokens?.getD .empty)))]

theorem contextTokensOf_document (tokens : OrdMap Assignment) :
    contextTokensOf (contextDocument (some tokens)) = .ok (some tokens) := by
  have htokens : (contextDocument (some tokens)).mapField "tokens" = .ok (valuesOf tokens) :=
    Value.mapField_of_fields rfl rfl
  have htruthy : (contextDocument (some tokens)).truthy = true := rfl
  simp [contextTokensOf, htruthy, htokens]

theorem exists_fields (o : Override) : ∃ m, o.toDocument.fields? = some m ∧
    m.get? "tokens" = some (.ofMap (valuesOf o.tokens)) ∧
    m.get? "contexts" =
      if o.contexts.isEmpty then none else some (.ofMap (o.contexts.map contextDocument)) := by
  unfold toDocument
  split
  · exact ⟨_, rfl, rfl, rfl⟩
  · exact ⟨_, rfl, rfl, rfl⟩

/-- A table of contexts that is left out is read as the empty one. -/
theorem items_contexts (contexts : OrdMap (Option (OrdMap Assignment))) {given : Value}
    (h : given = (if contexts.isEmpty then none
      else some (.ofMap (contexts.map contextDocument))).getD .null) :
    (if given.truthy then given else .object []).items = .ok (contexts.map contextDocument) := by
  cases hempty : contexts.isEmpty with
  | true =>
      obtain rfl := OrdMap.eq_empty_of_isEmpty hempty
      obtain rfl : given = .null := h
      rfl
  | false =>
      obtain rfl : given = .ofMap (contexts.map contextDocument) := by simpa [hempty] using h
      have htruthy : (Value.ofMap (contexts.map contextDocument)).truthy = true := by
        simpa [Value.truthy, Value.ofMap, OrdMap.map, OrdMap.mapWith] using
          List.isEmpty_eq_false_iff.mp hempty
      rw [htruthy, if_pos rfl, Value.items_ofMap]

theorem ofDocument_toDocument {o : Override} (h : ∀ tokens? ∈ o.contexts.values, tokens?.isSome) :
    ofDocument o.toDocument = .ok o := by
  obtain ⟨m, hm, htokens, hcontexts⟩ := o.exists_fields
  have hitems := items_contexts o.contexts (congrArg (·.getD .null) hcontexts)
  have hread : (o.contexts.map contextDocument).mapM (fun _ => contextTokensOf) =
      .ok o.contexts := by
    refine OrdMap.mapM_map fun e he => ?_
    obtain ⟨tokens, htokens⟩ := Option.isSome_iff_exists.mp (h e.2 (List.mem_map_of_mem he))
    rw [htokens]
    exact contextTokensOf_document tokens
  have htable : assignmentsOf (.ofList (valuesOf o.tokens).entries) = o.tokens := by
    rw [OrdMap.ofList_entries, assignmentsOf_valuesOf]
  simp only [ofDocument, hm, htokens, Value.ofMap, hitems, htable]
  exact Outcome.bind_eq_ok.mpr ⟨_, rfl, Outcome.bind_eq_ok.mpr ⟨_, hread, rfl⟩⟩

end Override

/-! ### Reading and writing -/

/-- A document as the theme in it is written. -/
def Theme.rewritten (v : Value) : Except Fault Value := toDocument <$> ofDocument v

/-- Themes are read as they were written, overrides too if their contexts have content, and a
document that is the writing of another one is its own writing. -/
theorem documents_lossless :
    (∀ t : Theme, Theme.ofDocument t.toDocument = .ok t) ∧
    (∀ o : Override, (∀ tokens? ∈ o.contexts.values, tokens?.isSome) →
      Override.ofDocument o.toDocument = .ok o) ∧
    ∀ v w, Theme.rewritten v = .ok w → Theme.rewritten w = .ok w := by
  refine ⟨Theme.ofDocument_toDocument, fun o => Override.ofDocument_toDocument, fun v w h => ?_⟩
  obtain ⟨t, -, rfl⟩ := Outcome.map_eq_ok.mp h
  exact Outcome.map_eq_ok.mpr ⟨t, t.ofDocument_toDocument, rfl⟩

/-! ### A theme with all kinds of fields -/

/-- Two states that are written without selector, and two that have one. -/
def season : Mode where
  id := "season"
  states := .ofList [("winter", .optional ".winter" .null), ("any", .fallback true),
    ("old", .fallback false), ("print", .optional ".paper" "print")]
  id_truthy := rfl

/-- A context stored under another name than its id. -/
def shelf : Context where
  id := "display"
  selector := ".shelf"
  tokens := .ofList [("rim", .text "2"), ("ink", .states (.ofList [("winter", "navy")]))]
  defaultMode := "season"

def storefront : Theme where
  id := "storefront"
  selector := ":root"
  tokens := .ofList [("rim", .text "\x7bink\x7d"),
    ("ink", .states (.ofList [("winter", "black"), ("any", "gray")])), ("gap", .other (.int 4) rfl)]
  modes := .ofList [("season", season)]
  bindings := .ofList [("ink", "season")]
  contexts := .ofList [("shelf", shelf), ("aisle", { shelf with defaultMode := .null })]
  palettes := some (.ofList [("primary", "#00f")])

/-- A shelf of a customer who likes it blue. -/
def blueShelf : Override where
  tokens := .ofList [("rim", .text "3")]
  contexts := .ofList [("shelf", some (.ofList [("ink", .text "blue")])), ("aisle", some .empty)]

/-- A document that gives no more than it must. -/
def scant : Value :=
  .object [("selector", ".s"), ("contexts", .object [("card", .object [("selector", ".c")])]),
    ("id", "scant")]

def scantWritten : Value :=
  .object [("id", "scant"), ("selector", ".s"), ("tokens", .object []), ("modes", .object []),
    ("tokenModeMap", .object []), ("contexts", .object [("card",
      .object [("id", "card"), ("selector", ".c"), ("tokens", .object [])])])]

theorem documents_lossless_storefront :
    Theme.ofDocument storefront.toDocument = .ok storefront ∧
    (∀ tokens? ∈ blueShelf.contexts.values, tokens?.isSome) ∧
    Override.ofDocument blueShelf.toDocument = .ok blueShelf ∧
    Theme.rewritten scant = .ok scantWritten ∧
    Theme.rewritten scantWritten = .ok scantWritten := by
  obtain ⟨hthemes, hoverrides, hdocuments⟩ := documents_lossless
  have hcontent : ∀ tokens? ∈ blueShelf.contexts.values, tokens?.isSome :=
    List.forall_mem_cons.mpr ⟨rfl, List.forall_mem_singleton.mpr rfl⟩
  have hscant : Theme.rewritten scant = .ok scantWritten := by rfl
  exact ⟨hthemes storefront, hcontent, hoverrides blueShelf hcontent, hscant,
    hdocuments scant scantWritten hscant⟩

end DesignTokens
