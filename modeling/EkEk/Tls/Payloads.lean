import EkEk.Config.Removal
import EkEk.JsonText
import EkEk.Tls.Order

/-!
# What an order asks for

The documents an account and an order are asked for with are put together from the names of the
certificate and from the contact address as they stand, without escaping them. They say what was
configured as long as neither has a quote, a backslash or a control character in it
(`payloads_as_configured_iff`); validation lets all of these pass.
-/

namespace EkEk.Tls

open Json Validation

/-- What stands for a name in an order. -/
def identifier (name : String) : Value := .object [("type", .string "dns"), ("value", .string name)]

namespace Flow

variable (float : String → Option UInt64) (flow : Flow)

/-- An order is asked for with the names of the flow. -/
def AsksForNames : Prop := ∃ document, fromStr float flow.orderPayload = some document ∧
  document.get "identifiers" = some (.array (flow.names.map identifier))

/-- An account is asked for with the address of the flow, where it has one. -/
def AsksWithContact : Prop := ∃ document, fromStr float flow.accountPayload = some document ∧
  document.get "contact" =
    if flow.contact = "" then none else some (.array [.string ("mailto:" ++ flow.contact)])

/-- How a name is put into an order. -/
def itemOf (name : String) : List Char :=
  '\x7b' :: '"' :: ("type".toList ++ '"' :: ':' :: '"' :: ("dns".toList ++ '"' :: ',' ::
    '"' :: ("value".toList ++ '"' :: ':' :: '"' :: (name.toList ++ ['"', '\x7d']))))

theorem toList_wrapped (before middle after : String) :
    (before ++ middle ++ after).toList = before.toList ++ (middle.toList ++ after.toList) := by
  rw [String.toList_append, String.toList_append, List.append_assoc]

/-- A name stands in an order between two fixed texts. -/
theorem toList_item (name : String) :
    (s!"\x7b\"type\":\"dns\",\"value\":\"{name}\"\x7d").toList = itemOf name :=
  toList_wrapped _ name _

/-- An order is its items with commas between them. -/
theorem toList_orderPayload : flow.orderPayload.toList =
    '\x7b' :: '"' :: ("identifiers".toList ++ '"' :: ':' :: '[' ::
      ([','].intercalate (flow.names.map itemOf) ++ [']', '\x7d'])) := by
  have hitems : (String.intercalate "," (flow.names.map fun name =>
      s!"\x7b\"type\":\"dns\",\"value\":\"{name}\"\x7d")).toList =
        [','].intercalate (flow.names.map itemOf) := by
    rw [String.toList_intercalate, List.map_map]
    exact congrArg _ (List.map_congr_left fun name _ => toList_item name)
  exact (toList_wrapped _ _ _).trans (congrArg (fun items => _ ++ (items ++ _)) hitems)

/-- A request for an account with a contact names it in a list. -/
theorem toList_accountPayload (h : flow.contact ≠ "") : flow.accountPayload.toList =
    '\x7b' :: '"' :: ("termsOfServiceAgreed".toList ++ '"' :: ':' :: 't' :: 'r' :: 'u' :: 'e' :: ',' ::
      '"' :: ("contact".toList ++ '"' :: ':' :: '[' :: '"' :: (("mailto:" ++ flow.contact).toList ++
        ['"', ']', '\x7d']))) := by
  have hcontact (address : String) (rest : List Char) : ("mailto:" ++ address).toList ++ rest =
      "mailto:".toList ++ (address.toList ++ rest) := by
    rw [String.toList_append, List.append_assoc]
  rw [accountPayload, if_neg h, hcontact]
  exact toList_wrapped _ flow.contact _

/-! ## What is read from them -/

variable {float flow}

/-- An item is read back, if nothing in its name has to be escaped. -/
theorem value_item {depth : ℕ} {name : String} (h : Unescaped name) (rest : List Char) :
    value float (depth + 1) (itemOf name ++ rest) = some (identifier name, rest) := by
  have htype : Unescaped "type" := by decide
  have hdns : Unescaped "dns" := by decide
  have hvalue : Unescaped "value" := by decide
  simp only [itemOf, List.cons_append, List.append_assoc, List.nil_append]
  obtain ⟨fuel, hmembers⟩ := exists_value_members (List.append_ne_nil_of_right_ne_nil _
    (List.cons_ne_nil _ _))
  rw [hmembers, members_cons htype (value_string hdns _), members_last hvalue (value_string h _)]
  rfl

/-- The items of an order are read back one by one. -/
theorem elements_items {depth : ℕ} {names : List String} (hnames : names ≠ [])
    (h : ∀ name ∈ names, Unescaped name) (rest : List Char) {fuel : ℕ} (hfuel : names.length ≤ fuel) :
    elements (value float (depth + 1)) fuel ([','].intercalate (names.map itemOf) ++ ']' :: rest) =
      some (names.map identifier, rest) := by
  induction names generalizing fuel with
  | nil => exact absurd rfl hnames
  | cons name names ih =>
    obtain ⟨fuel, rfl⟩ := Nat.exists_eq_succ_of_ne_zero (Nat.ne_zero_of_lt hfuel)
    obtain ⟨hname, hrest⟩ := List.forall_mem_cons.mp h
    cases names with
    | nil =>
      rw [List.map_singleton, List.map_singleton, List.intercalate_singleton]
      exact elements_last (value_item hname _)
    | cons next names =>
      rw [List.map_cons, List.map_cons, List.intercalate_cons_cons, List.append_assoc,
        List.append_assoc, List.singleton_append, elements_cons (value_item hname _)]
      have hothers := ih (List.cons_ne_nil _ _) hrest (Nat.le_of_succ_le_succ hfuel)
      rw [List.map_cons] at hothers
      rw [hothers]
      rfl

/-- An item is as long as the value it stands for has to be. -/
theorem length_itemOf (name : String) : (itemOf name).length = size (identifier name) := by
  have htype : "type".toList.length = 4 := rfl
  have hdns : "dns".toList.length = 3 := rfl
  have hvalue : "value".toList.length = 5 := rfl
  have htype' : "type".length = 4 := rfl
  have hdns' : "dns".length = 3 := rfl
  have hvalue' : "value".length = 5 := rfl
  simp only [itemOf, identifier, size, memberSizes, List.length_cons, List.length_append, htype, hdns,
    hvalue, htype', hdns', hvalue', String.length_toList, List.length_nil]
  omega

theorem length_items (names : List String) :
    ([','].intercalate (names.map itemOf)).length + 1 = max 1 (sizes (names.map identifier)) := by
  induction names with
  | nil => rfl
  | cons name names ih =>
    have hitem := length_itemOf name
    cases names with
    | nil =>
      rw [List.map_singleton, List.map_singleton, List.intercalate_singleton]
      simp only [sizes]
      omega
    | cons next names =>
      rw [List.map_cons, List.map_cons, List.intercalate_cons_cons, List.length_append,
        List.length_append, List.length_singleton]
      have hpos := one_le_sizes (List.cons_ne_nil (identifier next) (names.map identifier))
      simp only [List.map_cons, sizes] at ih hpos ⊢
      omega

/-- An order is as long as the document it stands for has to be. -/
theorem length_orderPayload : flow.orderPayload.length =
    size (.object [("identifiers", .array (flow.names.map identifier))]) := by
  have hitems := length_items flow.names
  have hname : "identifiers".toList.length = 11 := rfl
  have hname' : "identifiers".length = 11 := rfl
  rw [← String.length_toList, toList_orderPayload]
  simp only [List.length_cons, List.length_append, size, memberSizes, hname, hname', List.length_nil]
  omega

theorem unescaped_of_identifiers {names : List String} (h : AllPlain (names.map identifier)) :
    ∀ name ∈ names, Unescaped name := by
  induction names with
  | nil => exact fun _ hmem => absurd hmem List.not_mem_nil
  | cons name names ih =>
    obtain ⟨⟨-, ⟨-, hname⟩, -⟩, hrest⟩ := h
    exact List.forall_mem_cons.mpr ⟨hname, ih hrest⟩

theorem exists_items (name : String) (names : List String) :
    ∃ tail, [','].intercalate ((name :: names).map itemOf) = '\x7b' :: tail := by
  cases names with
  | nil => exact ⟨_, by rw [List.map_singleton, List.intercalate_singleton]; rfl⟩
  | cons next names =>
    exact ⟨_, by rw [List.map_cons, List.map_cons, List.intercalate_cons_cons, List.append_assoc]; rfl⟩

/-- The list of an order is read back. -/
theorem value_items {depth : ℕ} {names : List String} (h : ∀ name ∈ names, Unescaped name)
    (rest : List Char) :
    value float (depth + 2) ('[' :: ([','].intercalate (names.map itemOf) ++ ']' :: rest)) =
      some (.array (names.map identifier), rest) := by
  cases names with
  | nil => exact value_no_elements rest
  | cons name names =>
    obtain ⟨tail, htail⟩ := exists_items name names
    have hskip : ∀ later,
        skip ([','].intercalate ((name :: names).map itemOf) ++ ']' :: rest) ≠ ']' :: later := by
      intro later heq
      rw [htail, List.cons_append, skip_of_head rfl] at heq
      exact absurd (List.cons.inj heq).1 (by decide)
    have hfuel : (name :: names).length ≤
        ([','].intercalate ((name :: names).map itemOf) ++ ']' :: rest).length := by
      have hitems := length_items (name :: names)
      have hsizes := length_le_sizes ((name :: names).map identifier)
      rw [List.length_map] at hsizes
      rw [List.length_append]
      exact (hsizes.trans (le_max_right _ _)).trans (hitems.ge.trans (by simp))
    rw [value_elements hskip, elements_items (List.cons_ne_nil _ _) h rest hfuel]
    rfl

/-- What is read from an order for names that need no escapes. -/
theorem fromStr_orderPayload (h : ∀ name ∈ flow.names, Unescaped name) :
    fromStr float flow.orderPayload =
      some (.object [("identifiers", .array (flow.names.map identifier))]) := by
  have hidentifiers : Unescaped "identifiers" := by decide
  apply fromStr_eq_some
  obtain ⟨fuel, hmembers⟩ := exists_value_members (List.append_ne_nil_of_right_ne_nil _
    (List.cons_ne_nil _ _))
  rw [toList_orderPayload, deepest, hmembers, members_last hidentifiers (value_items h _)]
  rfl

/-- An order that asks for its names has none with a character that has to be escaped. -/
theorem AsksForNames.unescaped (h : AsksForNames float flow) : ∀ name ∈ flow.names, Unescaped name := by
  obtain ⟨document, hread, hget⟩ := h
  obtain ⟨hle, hplain⟩ := size_le_of_fromStr hread
  rw [length_orderPayload] at hle hplain
  cases document with
  | object members =>
    have hmem := mem_of_lookup hget
    have hsize := memberSizes_of_mem hmem
    have hwhole : size (.object members) =
        size (.object [("identifiers", .array (flow.names.map identifier))]) := by
      simp only [size, memberSizes] at hle hsize ⊢
      omega
    exact unescaped_of_identifiers ((hplain hwhole).of_mem hmem)
  | _ => cases hget

/-- What is read from an account without an address. -/
theorem fromStr_bare (h : flow.contact = "") :
    fromStr float flow.accountPayload = some (.object [("termsOfServiceAgreed", .bool true)]) := by
  rw [accountPayload, if_pos h]
  rfl

theorem address_unescaped {address : String} : Unescaped ("mailto:" ++ address) ↔ Unescaped address := by
  have hscheme : Unescaped "mailto:" := by decide
  rw [Unescaped, String.toList_append, List.forall_mem_append]
  exact and_iff_right hscheme

/-- The contact is read back, if nothing in it has to be escaped. -/
theorem value_address {depth : ℕ} {address : String} (h : Unescaped address) (rest : List Char) :
    value float (depth + 1) ('[' :: '"' :: (address.toList ++ '"' :: ']' :: rest)) =
      some (.array [.string address], rest) := by
  have hskip : ∀ later, skip ('"' :: (address.toList ++ '"' :: ']' :: rest)) ≠ ']' :: later := by
    intro later heq
    rw [skip_of_head rfl] at heq
    exact absurd (List.cons.inj heq).1 (by decide)
  rw [value_elements hskip, List.length_cons, elements_last (value_string h _)]
  rfl

/-- What is read from an account with an address that needs no escapes. -/
theorem fromStr_accountPayload (hsome : flow.contact ≠ "") (h : Unescaped flow.contact) :
    fromStr float flow.accountPayload =
      some (.object [("contact", .array [.string ("mailto:" ++ flow.contact)]),
        ("termsOfServiceAgreed", .bool true)]) := by
  have hterms : Unescaped "termsOfServiceAgreed" := by decide
  have hcontact : Unescaped "contact" := by decide
  apply fromStr_eq_some
  obtain ⟨fuel, hmembers⟩ := exists_value_members (List.append_ne_nil_of_right_ne_nil _
    (List.cons_ne_nil _ _))
  rw [toList_accountPayload flow hsome, deepest, hmembers, members_cons hterms (value_true _),
    members_last hcontact (value_address (address_unescaped.mpr h) _)]
  rfl

theorem length_address (address : String) :
    ('"' :: ("contact".toList ++ '"' :: ':' :: '[' :: '"' :: (("mailto:" ++ address).toList ++
      ['"', ']', '\x7d']))).length =
        "contact".length + 3 + size (.array [.string ("mailto:" ++ address)]) + 1 := by
  have hname : "contact".toList.length = 7 := rfl
  have hname' : "contact".length = 7 := rfl
  simp only [List.length_cons, List.length_append, size, sizes, hname, hname', List.length_nil,
    String.length_toList]
  omega

/-- A request that names its contact has none there either. -/
theorem AsksWithContact.unescaped (h : AsksWithContact float flow) : Unescaped flow.contact := by
  by_cases hsome : flow.contact = ""
  · rw [hsome]
    exact fun c hc => absurd hc List.not_mem_nil
  · obtain ⟨document, hread, hget⟩ := h
    rw [if_neg hsome] at hget
    have hterms : Unescaped "termsOfServiceAgreed" := by decide
    obtain ⟨⟨v, rest⟩, hvalue, hdocument⟩ := Option.bind_eq_some_iff.mp hread
    obtain ⟨fuel, hmembers⟩ := exists_value_members (List.append_ne_nil_of_right_ne_nil _
      (List.cons_ne_nil _ _))
    rw [toList_accountPayload flow hsome, deepest, hmembers, members_cons hterms (value_true _)] at hvalue
    obtain ⟨⟨found, last⟩, hfound, hv⟩ := Option.map_eq_some_iff.mp hvalue
    obtain ⟨⟨others, end'⟩, hothers, heq⟩ := Option.map_eq_some_iff.mp hfound
    obtain ⟨rfl, rfl⟩ := Prod.mk.inj heq
    obtain ⟨rfl, rfl⟩ := Prod.mk.inj hv
    dsimp only at hdocument
    split at hdocument
    · obtain rfl := Option.some.inj hdocument
      obtain ⟨-, hle, hplain⟩ := costs_members costs_value hothers
      have hmem := (List.mem_cons.mp (mem_of_mem_gathered (mem_of_lookup hget))).resolve_left (by simp)
      have hsize := memberSizes_of_mem hmem
      have htail := length_address flow.contact
      obtain ⟨hplain, -⟩ := (hplain (by omega)).of_mem hmem
      exact address_unescaped.mp hplain
    · cases hdocument

/-- The account and the order are asked for as configured exactly when neither a name nor the address has
a character in it that would have to be escaped. -/
theorem payloads_as_configured_iff (float : String → Option UInt64) (flow : Flow) :
    AsksForNames float flow ∧ AsksWithContact float flow ↔
      (∀ name ∈ flow.names, Unescaped name) ∧ Unescaped flow.contact := by
  refine ⟨fun h => ⟨h.1.unescaped, h.2.unescaped⟩, fun ⟨hnames, hcontact⟩ => ⟨?_, ?_⟩⟩
  · exact ⟨_, fromStr_orderPayload hnames, rfl⟩
  · by_cases hsome : flow.contact = ""
    · exact ⟨_, fromStr_bare hsome, (if_pos hsome).symm⟩
    · exact ⟨_, fromStr_accountPayload hsome hcontact, (if_neg hsome).symm⟩

/-- A document with a certificate over HTTP-01. -/
def covering (name : String) : Config :=
  { oneSite with
    frontends := [{ site with tls := none }]
    certificates := [⟨⟨"cert"⟩, [name], .acmeHttp01, none, none, none⟩]
    acme := some ⟨"https://acme.example.org/directory", "", true, ""⟩ }

/-- A name that ends its own identifier and begins another one. -/
def splitName : String := "a.example\"\x7d,\x7b\"type\":\"dns\",\"value\":\"b.example"

/-- The flow of an order for the certificate, about to ask for it. -/
def splitFlow : Flow :=
  { new "https://acme.example.org/directory" [splitName] "" "" "" .http01 with stage := .order }

/-- One name of an accepted document is asked for as two. -/
theorem name_asks_for_two :
    validate (covering splitName) = .ok () ∧
      (∃ url identify, splitFlow.next = some (.send url (some splitFlow.orderPayload) identify)) ∧
      fromStr (fun _ => none) splitFlow.orderPayload =
        some (.object [("identifiers", .array [identifier "a.example", identifier "b.example"])]) ∧
      ¬ (AsksForNames (fun _ => none) splitFlow ∧ AsksWithContact (fun _ => none) splitFlow) := by
  have hread : fromStr (fun _ => none) splitFlow.orderPayload =
      some (.object [("identifiers", .array [identifier "a.example", identifier "b.example"])]) := rfl
  refine ⟨by decide +kernel, ⟨_, _, rfl⟩, hread, fun ⟨⟨document, hdocument, hget⟩, _⟩ => ?_⟩
  obtain rfl := Option.some.inj (hread.symm.trans hdocument)
  have hlength := congrArg (Option.map fun v => v.asArray.map List.length) hget
  exact absurd hlength (by decide)

end Flow

end EkEk.Tls
