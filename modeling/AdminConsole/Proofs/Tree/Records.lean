import AdminConsole.Tree.Node

/-!
What a node writes of its record. Every field that was sent is written again, the unknown ones as they
came and the known ones in their own form; whatever was sent under a name of the listing is left out.
The record that is read from what a node writes is the record of the node.
-/

namespace AdminConsole

namespace Record

variable {entries tail : Entries Json} {name : String}

/-! ### Values -/

/-- A value that was sent, unless it is null. -/
def present (sent : Option Json) : Option Json := sent.filter fun value => !value.isNull

theorem present_field (name : String) (entries : Entries Json) :
    present (some (Json.field name entries)) = present (Entries.get? name entries) := by
  unfold Json.field
  cases Entries.get? name entries <;> rfl

theorem present_codeOf (value : Json) :
    present (some (codeJson (codeOf value))) =
      (present (some value)).map fun value => .text value.plain := by
  cases value <;> rfl

theorem present_orElse {default : Json} (h : default.isNull = false) (value : Json) :
    present (some (orElse value default)) = some ((present (some value)).getD default) := by
  cases hnull : value.isNull <;> simp [present, orElse, Option.filter, hnull, h]

theorem codeOf_codeJson (code : Option String) : codeOf (codeJson code) = code := by
  cases code <;> rfl

theorem orElse_orElse (value : Json) {default : Json} (h : default.isNull = false) :
    orElse (orElse value default) default = orElse value default := by
  cases hnull : value.isNull <;> simp [orElse, hnull, h]

/-! ### The fields that are known -/

/-- The known fields in their order, with those that are null. -/
def known (r : Record) : Entries Json :=
  wireNames.zip
    [r.id, codeJson r.code, codeJson r.parentCode, r.tenantCode, r.name, r.kind, r.sortOrder,
      r.path, r.authority, r.icons]

theorem names_known (r : Record) : Entries.names r.known = wireNames := rfl

theorem get?_wire (r : Record) (name : String) :
    Entries.get? name r.wire = present (Entries.get? name r.known) := by
  have hnames : (Entries.names r.known).Nodup := by
    rw [names_known]
    decide
  exact Entries.get?_filter_value (fun value => !value.isNull) name hnames

theorem names_wire (r : Record) : (Entries.names r.wire).Sublist wireNames := by
  rw [← names_known r]
  exact List.Sublist.map Prod.fst List.filter_sublist

/-- What is written under a name for what was sent under it. -/
def written (name : String) (sent : Option Json) : Option Json :=
  if name = "code" ∨ name = "pcode" then (present sent).map fun value => .text value.plain
  else if name = "name" ∨ name = "type" then some ((present sent).getD (.text ""))
  else if name = "sort" then some ((present sent).getD (.number (.whole 0)))
  else if name ∈ wireNames then present sent
  else sent

theorem written_unknown (h : name ∉ wireNames) (sent : Option Json) : written name sent = sent := by
  simp only [wireNames, List.mem_cons, List.not_mem_nil, or_false, not_or] at h
  simp [written, wireNames, h]

theorem get?_wire_written (h : name ∈ wireNames) (entries : Entries Json) :
    Entries.get? name (ofEntries entries).wire = written name (Entries.get? name entries) := by
  have hplain : ∀ name, present (some (Json.field name entries)) =
      present (Entries.get? name entries) := fun name => present_field name entries
  have hcode : ∀ name, present (some (codeJson (codeOf (Json.field name entries)))) =
      (present (Entries.get? name entries)).map fun value => .text value.plain := by
    intro name
    rw [present_codeOf, hplain]
  have hdefault : ∀ name default, Json.isNull default = false →
      present (some (orElse (Json.field name entries) default)) =
        some ((present (Entries.get? name entries)).getD default) := by
    intro name default hnull
    rw [present_orElse hnull, hplain]
  rw [get?_wire]
  simp only [wireNames, List.mem_cons, List.not_mem_nil, or_false] at h
  rcases h with rfl | rfl | rfl | rfl | rfl | rfl | rfl | rfl | rfl | rfl
  · exact hplain "id"
  · exact hcode "code"
  · exact hcode "pcode"
  · exact hplain "tenantCode"
  · exact hdefault "name" _ rfl
  · exact hdefault "type" _ rfl
  · exact hdefault "sort" _ rfl
  · exact hplain "path"
  · exact hplain "authority"
  · exact hplain "icons"

/-! ### The fields that are not known -/

/-- Whether a record keeps what is sent under a name as a field that it does not know. -/
def isExtra (name : String) : Bool := !wireNames.contains name && !viewNames.contains name

theorem isExtra_iff : isExtra name = true ↔ name ∉ wireNames ∧ name ∉ viewNames := by
  simp [isExtra]

theorem extra_eq (entries : Entries Json) :
    (ofEntries entries).extra = entries.filter fun entry => isExtra entry.1 := rfl

theorem get?_extra (name : String) (entries : Entries Json) :
    Entries.get? name (ofEntries entries).extra =
      if isExtra name then Entries.get? name entries else none :=
  Entries.get?_filter_name isExtra name entries

/-! ### What is written -/

/-- The fields of a record, with those of a listing after them. -/
def writes (r : Record) (tail : Entries Json) : Entries Json := r.extra ++ r.wire ++ tail

theorem get?_writes (htail : ∀ entry ∈ tail, entry.1 ∈ viewNames) (hname : name ∉ viewNames)
    (entries : Entries Json) :
    Entries.get? name ((ofEntries entries).writes tail) =
      written name (Entries.get? name entries) := by
  have hlisting : Entries.get? name tail = none := by
    rw [Entries.get?_eq_none_iff]
    intro hmem
    obtain ⟨entry, hentry, rfl⟩ := List.mem_map.mp hmem
    exact hname (htail entry hentry)
  rw [writes, Entries.get?_append, Entries.get?_append, hlisting, Option.or_none, get?_extra]
  by_cases hwire : name ∈ wireNames
  · have hextra : ¬isExtra name = true := fun h => (isExtra_iff.mp h).1 hwire
    rw [if_neg hextra, Option.none_or, get?_wire_written hwire]
  · have hnone : Entries.get? name (ofEntries entries).wire = none := by
      rw [Entries.get?_eq_none_iff]
      intro hmem
      exact hwire ((names_wire _).subset hmem)
    rw [if_pos (isExtra_iff.mpr ⟨hwire, hname⟩), hnone, Option.or_none, written_unknown hwire]

theorem nodup_writes (hnames : (Entries.names entries).Nodup) (htail : (Entries.names tail).Nodup)
    (hview : ∀ entry ∈ tail, entry.1 ∈ viewNames) :
    (Entries.names ((ofEntries entries).writes tail)).Nodup := by
  have hapart : ∀ name ∈ viewNames, name ∉ wireNames := by decide
  have hextra : ∀ name ∈ Entries.names (ofEntries entries).extra, isExtra name = true := by
    intro name hmem
    obtain ⟨entry, hentry, rfl⟩ := List.mem_map.mp hmem
    exact (List.mem_filter.mp hentry).2
  have hlisting : ∀ name ∈ Entries.names tail, name ∈ viewNames := by
    intro name hmem
    obtain ⟨entry, hentry, rfl⟩ := List.mem_map.mp hmem
    exact hview entry hentry
  have hwire := names_wire (ofEntries entries)
  have hsublist : (Entries.names (ofEntries entries).extra).Sublist (Entries.names entries) :=
    List.Sublist.map Prod.fst List.filter_sublist
  rw [writes, Entries.names, List.map_append, List.map_append, List.nodup_append, List.nodup_append]
  refine ⟨⟨hnames.sublist hsublist, List.Nodup.sublist hwire (by decide), ?_⟩, htail, ?_⟩
  · rintro name hname other hother rfl
    exact (isExtra_iff.mp (hextra name hname)).1 (hwire.subset hother)
  · rintro name hname other hother rfl
    rcases List.mem_append.mp hname with hname | hname
    · exact (isExtra_iff.mp (hextra name hname)).2 (hlisting name hother)
    · exact hapart name (hlisting name hother) (hwire.subset hname)

theorem field_writes (htail : ∀ entry ∈ tail, entry.1 ∈ viewNames) (hname : name ∈ wireNames)
    (entries : Entries Json) :
    Json.field name ((ofEntries entries).writes tail) =
      (Entries.get? name (ofEntries entries).known).getD .null := by
  have hapart : ∀ name ∈ wireNames, name ∉ viewNames := by decide
  have hdropped : ∀ sent, (present sent).getD .null = sent.getD .null := by
    intro sent
    cases sent with
    | none => rfl
    | some value => cases value <;> rfl
  rw [Json.field, get?_writes htail (hapart name hname), ← get?_wire_written hname, get?_wire,
    hdropped]

theorem extra_writes (htail : ∀ entry ∈ tail, entry.1 ∈ viewNames) (entries : Entries Json) :
    ((ofEntries entries).writes tail).filter (fun entry => isExtra entry.1) =
      (ofEntries entries).extra := by
  have hwire : (ofEntries entries).wire.filter (fun entry => isExtra entry.1) = [] := by
    rw [List.filter_eq_nil_iff]
    intro entry hentry hextra
    exact (isExtra_iff.mp hextra).1 ((names_wire _).subset (List.mem_map_of_mem hentry))
  have hlisting : tail.filter (fun entry => isExtra entry.1) = [] := by
    rw [List.filter_eq_nil_iff]
    intro entry hentry hextra
    exact (isExtra_iff.mp hextra).2 (htail entry hentry)
  rw [writes, List.filter_append, List.filter_append, hwire, hlisting, List.append_nil,
    List.append_nil, extra_eq, List.filter_filter]
  simp only [Bool.and_self]

/-- A record is read back from what is written of it. -/
theorem ofEntries_writes (htail : ∀ entry ∈ tail, entry.1 ∈ viewNames) (entries : Entries Json) :
    ofEntries ((ofEntries entries).writes tail) = ofEntries entries := by
  have hfield : ∀ name ∈ wireNames, Json.field name ((ofEntries entries).writes tail) =
      (Entries.get? name (ofEntries entries).known).getD .null :=
    fun name hname => field_writes htail hname entries
  have hextra := extra_writes htail entries
  generalize (ofEntries entries).writes tail = sent at hfield hextra ⊢
  have hcode : codeOf (Json.field "code" sent) = (ofEntries entries).code := by
    rw [hfield "code" (by decide)]
    exact codeOf_codeJson _
  have hparent : codeOf (Json.field "pcode" sent) = (ofEntries entries).parentCode := by
    rw [hfield "pcode" (by decide)]
    exact codeOf_codeJson _
  have hname : orElse (Json.field "name" sent) (.text "") = (ofEntries entries).name := by
    rw [hfield "name" (by decide)]
    exact orElse_orElse _ rfl
  have hkind : orElse (Json.field "type" sent) (.text "") = (ofEntries entries).kind := by
    rw [hfield "type" (by decide)]
    exact orElse_orElse _ rfl
  have hsort : orElse (Json.field "sort" sent) (.number (.whole 0)) =
      (ofEntries entries).sortOrder := by
    rw [hfield "sort" (by decide)]
    exact orElse_orElse _ rfl
  have htenant := hfield "tenantCode" (by decide)
  have hpath := hfield "path" (by decide)
  have hauthority := hfield "authority" (by decide)
  have hicons := hfield "icons" (by decide)
  have hid := hfield "id" (by decide)
  calc ofEntries sent
      = ⟨codeOf (Json.field "code" sent), codeOf (Json.field "pcode" sent),
          orElse (Json.field "name" sent) (.text ""), orElse (Json.field "type" sent) (.text ""),
          orElse (Json.field "sort" sent) (.number (.whole 0)), Json.field "tenantCode" sent,
          Json.field "path" sent, Json.field "authority" sent, Json.field "icons" sent,
          Json.field "id" sent, sent.filter fun entry => isExtra entry.1⟩ := rfl
    _ = ofEntries entries := by
      rw [hcode, hparent, hname, hkind, hsort, htenant, hpath, hauthority, hicons, hid, hextra]
      rfl

end Record

namespace Node

/-! ### Nodes -/

/-- The fields of the listing that a node writes after its record, without its children. -/
def listing (n : Node) : Entries Json :=
  [("level", .number (.whole n.level)), ("expand", .bool n.expanded)] ++
    match n.parentRef with
    | none => []
    | some code => [("parent", .text code)]

/-- The field of a node's children, if it has any. -/
def childField (n : Node) : Entries Json :=
  match listJson n.childList with
  | [] => []
  | items => [("children", .list items)]

theorem ownEntries_eq (n : Node) : n.ownEntries = n.record.writes n.listing :=
  List.append_assoc _ _ _

theorem toJson_eq (n : Node) :
    n.toJson = .object (n.record.writes (n.listing ++ n.childField)) := by
  obtain ⟨record, level, expanded, parentRef, children⟩ := n
  have hown := ownEntries_eq ⟨record, level, expanded, parentRef, none⟩
  cases children with
  | none =>
    rw [toJson, hown]
    show Json.object (record.writes _) = Json.object (record.writes (_ ++ []))
    rw [List.append_nil]
  | some children =>
    rw [toJson, hown, Record.writes, Record.writes, List.append_assoc]
    rfl

/-- The names of a listing are written in one order, and none of them twice. -/
theorem names_listing (n : Node) : (Entries.names (n.listing ++ n.childField)).Sublist
    ["level", "expand", "parent", "children"] := by
  have hlisting : (Entries.names n.listing).Sublist ["level", "expand", "parent"] := by
    unfold listing
    cases n.parentRef with
    | none => exact List.sublist_append_left ["level", "expand"] ["parent"]
    | some code => exact List.Sublist.refl _
  have hchildren : (Entries.names n.childField).Sublist ["children"] := by
    unfold childField
    cases listJson n.childList with
    | nil => exact List.nil_sublist _
    | cons first rest => exact List.Sublist.refl _
  rw [Entries.names, List.map_append]
  exact hlisting.append hchildren

theorem viewNames_of_mem {n : Node} {entry : String × Json} (h : entry ∈ n.listing ++ n.childField) :
    entry.1 ∈ Record.viewNames := by
  have hviews : ∀ name ∈ ["level", "expand", "parent", "children"], name ∈ Record.viewNames := by
    decide
  exact hviews _ ((names_listing n).subset (List.mem_map_of_mem h))

/-- A node in a listing, with this state and these children. -/
def placedIn (level : Int) (expanded : Bool) (parentRef : Option String)
    (children : Option (List Node)) (n : Node) : Node :=
  ⟨n.record, level, expanded, parentRef, children⟩

/-- Whatever the state in the listing is, a node that was read from a record writes each field of the
record under its name, once: the known fields in their own form, the others as they came. A node that
is read from what it writes, with or without the children, is the node that was read from the record. -/
theorem placedIn_writes {entries : Entries Json} (hnames : (Entries.names entries).Nodup)
    (level : Int) (expanded : Bool) (parentRef : Option String) (children : Option (List Node)) :
    let node := (ofEntries entries).placedIn level expanded parentRef children
    (Entries.names node.ownEntries).Nodup ∧
      (∀ name ∉ Record.viewNames, Entries.get? name node.ownEntries =
        Record.written name (Entries.get? name entries)) ∧
      ofEntries node.ownEntries = ofEntries entries ∧
      ∃ written, node.toJson = .object written ∧ ofEntries written = ofEntries entries ∧
        ((ofEntries written).placedIn level expanded parentRef children).toJson = node.toJson := by
  intro node
  have hrecord : node.record = .ofEntries entries := rfl
  have hview : ∀ entry ∈ node.listing, entry.1 ∈ Record.viewNames :=
    fun entry hentry => viewNames_of_mem (List.mem_append_left _ hentry)
  have hlisting : (Entries.names node.listing).Nodup := by
    have hsublist := List.Sublist.map Prod.fst (List.sublist_append_left node.listing node.childField)
    exact List.Nodup.sublist (hsublist.trans (names_listing node)) (by decide)
  have hread : ∀ tail, (∀ entry ∈ tail, entry.1 ∈ Record.viewNames) →
      ofEntries ((Record.ofEntries entries).writes tail) = ofEntries entries := by
    intro tail htail
    rw [ofEntries, Record.ofEntries_writes htail, ofEntries]
  rw [ownEntries_eq, hrecord]
  refine ⟨Record.nodup_writes hnames hlisting hview, ?_, hread _ hview, _, toJson_eq node, ?_⟩
  · intro name hname
    exact Record.get?_writes hview hname entries
  · have hall := hread _ fun entry => viewNames_of_mem (n := node)
    rw [hrecord]
    refine ⟨hall, ?_⟩
    rw [hall]

/-- A record with a code that is no text, with nulls, with a field that is not known and with fields
that are named as those of a listing. -/
def mixed : Entries Json :=
  [("hidden", .null), ("sort", .null), ("level", .number (.whole 9)), ("code", .number (.whole 7)),
    ("children", .list [.null]), ("path", .null), ("pcode", .bool true), ("name", .text "Menu")]

theorem placedIn_writes_mixed :
    let node := (ofEntries mixed).placedIn 2 true (some "A") (some [ofEntries []])
    (Entries.names mixed).Nodup ∧
      node.ownEntries = [("hidden", .null), ("code", .text "7"), ("pcode", .text "True"),
        ("name", .text "Menu"), ("type", .text ""), ("sort", .number (.whole 0)),
        ("level", .number (.whole 2)), ("expand", .bool true), ("parent", .text "A")] ∧
      Entries.get? "path" node.ownEntries = none ∧
      ofEntries node.ownEntries = ofEntries mixed := by
  have hnames : (Entries.names mixed).Nodup := by decide
  obtain ⟨-, hwritten, hread, -⟩ :=
    placedIn_writes hnames 2 true (some "A") (some [ofEntries []])
  exact ⟨hnames, rfl, hwritten "path" (by decide), hread⟩

end Node

end AdminConsole
