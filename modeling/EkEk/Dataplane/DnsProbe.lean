import EkEk.Config.Template
import EkEk.Lib.Segments
import EkEk.Text

/-!
# The query of a DNS probe

Reference: `dns_query` of `crates/ek-ek-dataplane/src/probe.rs`.

A DNS probe sends one question. The name in it is the text a pool's health check gives, cut at its dots
into labels, and every label goes on the wire behind its length. A name that leaves an empty label, or
one that is too long, is not put in a query at all, and the member counts as bad.

`readQuestion` says what a server finds in a packet. `dnsQuery_iff_labels` is that every name with a
label in it is asked for as it stands. The root has none, and it is the name the template for DNS asks
for.
-/

namespace EkEk.Dataplane

open Templates

/-- The transaction id every query carries. -/
def dnsId : List UInt8 := [0x2b, 0x1a]

/-- The number of a record type on the wire. -/
def recordCode : DnsRecordType → UInt16
  | .a => 1
  | .soa => 6
  | .aaaa => 28

/-- A number of two bytes, the higher one first. -/
def toBeBytes (n : UInt16) : List UInt8 := [UInt8.ofNat (n.toNat / 256), UInt8.ofNat n.toNat]

/-- One label of a name on the wire. -/
def labelBytes (label : String) : Option (List UInt8) :=
  if label = "" ∨ 63 < label.utf8ByteSize then none
  else some (UInt8.ofNat label.utf8ByteSize :: Text.bytes label)

/-- The header of a query. -/
def dnsHeader : List UInt8 :=
  dnsId ++
    -- a standard query, recursion desired
    [0x01, 0x00] ++
    -- one question, no answers, no authority, no additional
    [0x00, 0x01, 0x00, 0x00, 0x00, 0x00, 0x00, 0x00]

/-- Build a DNS query packet. -/
def dnsQuery (name : String) (recordType : DnsRecordType) : Option (List UInt8) := do
  let labels ← (Text.split (Text.trimEndMatches name '.') '.').mapM labelBytes
  -- the class behind the type is IN
  some (dnsHeader ++ labels.flatten ++ [0] ++ toBeBytes (recordCode recordType) ++ [0x00, 0x01])

/-! ## What a server reads -/

/-- One question of a packet. -/
structure Question where
  labels : List (List UInt8)
  recordType : ℕ
  recordClass : ℕ
deriving DecidableEq, Repr

/-- Read labels up to the empty one that ends a name. -/
def readName : ℕ → List UInt8 → Option (List (List UInt8) × List UInt8)
  | 0, _ => none
  | _ + 1, [] => none
  | fuel + 1, length :: rest =>
    if length = 0 then some ([], rest)
    -- longer ones are pointers or reserved
    else if 63 < length.toNat ∨ rest.length < length.toNat then none
    else do
      let (labels, left) ← readName fuel (rest.drop length.toNat)
      some (rest.take length.toNat :: labels, left)

/-- The question behind the header of a packet, if there is nothing else there. -/
def readQuestion (packet : List UInt8) : Option Question :=
  match readName packet.length (packet.drop 12) with
  | some (labels, [a, b, c, d]) =>
    some ⟨labels, a.toNat * 256 + b.toNat, c.toNat * 256 + d.toNat⟩
  | _ => none

/-- A label of a domain name. -/
structure Label (label : String) : Prop where
  pos : 0 < label.utf8ByteSize
  le : label.utf8ByteSize ≤ 63
  noDot : '.' ∉ label.toList

/-- The text of the name with such labels, with so many dots behind it. -/
def nameText (labels : List String) (dots : ℕ) : String :=
  String.ofList (['.'].intercalate (labels.map String.toList) ++ List.replicate dots '.')

/-- A text that is a name with at least one label. -/
def Labelled (name : String) : Prop :=
  ∃ labels dots, labels ≠ [] ∧ (∀ label ∈ labels, Label label) ∧ name = nameText labels dots

/-- The question a query for such a name carries, in the class of the internet. -/
def asked (labels : List String) (recordType : DnsRecordType) : Question where
  labels := labels.map Text.bytes
  recordType := (recordCode recordType).toNat
  recordClass := 1

/-! ## Names with labels -/

theorem length_bytes (s : String) : (Text.bytes s).length = s.utf8ByteSize := by
  rw [Text.bytes, Array.length_toList]
  rfl

theorem labelBytes_eq_some {label : String} (hne : label ≠ "") (hle : label.utf8ByteSize ≤ 63) :
    labelBytes label = some (UInt8.ofNat label.utf8ByteSize :: Text.bytes label) := by
  rw [labelBytes, if_neg]
  rintro (h | h)
  · exact hne h
  · omega

theorem Label.ne_empty {label : String} (h : Label label) : label ≠ "" := by
  rintro rfl
  exact absurd h.pos (by decide)

section

variable {labels : List String}

/-- Labels end with something other than a dot. -/
theorem getLast_labels (hlabels : ∀ label ∈ labels, Label label) :
    ∀ h : ['.'].intercalate (labels.map String.toList) ≠ [],
      (['.'].intercalate (labels.map String.toList)).getLast h ≠ '.' := by
  induction labels with
  | nil => simp
  | cons label rest ih =>
    have hlabel : Label label := hlabels label List.mem_cons_self
    cases rest with
    | nil =>
      simp only [List.map_cons, List.map_nil, List.intercalate_singleton]
      intro h hlast
      exact hlabel.noDot (hlast ▸ List.getLast_mem h)
    | cons second rest =>
      have hsecond : Label second := hlabels second (by simp)
      have hrest := ih fun other hother => hlabels other (List.mem_cons_of_mem label hother)
      have hne : ['.'].intercalate ((second :: rest).map String.toList) ≠ [] := by
        have hchars : second.toList ≠ [] := fun h => hsecond.ne_empty (String.toList_eq_nil_iff.mp h)
        cases rest <;> simp [hchars]
      intro h
      simp only [List.map_cons, List.intercalate_cons_cons] at hrest hne ⊢
      rw [List.getLast_append_of_ne_nil _ hne]
      exact hrest hne

/-- The dots behind a name are cut off. -/
theorem trimEndMatches_nameText (hlabels : ∀ label ∈ labels, Label label) (dots : ℕ) :
    Text.trimEndMatches (nameText labels dots) '.' = nameText labels 0 := by
  rw [Text.trimEndMatches, nameText, nameText, String.toList_ofList, List.replicate_zero,
    List.append_nil]
  congr 1
  induction dots with
  | zero =>
    rw [List.replicate_zero, List.append_nil, List.rdropWhile_eq_self_iff]
    intro h
    rw [beq_iff_eq]
    exact getLast_labels hlabels h
  | succ dots ih =>
    rw [List.replicate_succ', ← List.append_assoc, List.rdropWhile_concat_pos _ _ _ (by decide), ih]

/-- A name is cut into its labels. -/
theorem split_nameText (hne : labels ≠ []) (hlabels : ∀ label ∈ labels, Label label) (dots : ℕ) :
    Text.split (Text.trimEndMatches (nameText labels dots) '.') '.' = labels := by
  have hparts : ∀ part ∈ labels.map String.toList, '.' ∉ part := by
    intro part hpart
    obtain ⟨label, hlabel, rfl⟩ := List.mem_map.mp hpart
    exact (hlabels label hlabel).noDot
  rw [trimEndMatches_nameText hlabels, nameText, Text.split, String.toList_ofList, List.replicate_zero,
    List.append_nil, List.splitOn_intercalate '.' hparts (by simpa using hne), List.map_map]
  simp [Function.comp_def]

theorem mapM_labelBytes (hlabels : ∀ label ∈ labels, Label label) :
    labels.mapM labelBytes =
      some (labels.map fun label => UInt8.ofNat label.utf8ByteSize :: Text.bytes label) := by
  induction labels with
  | nil => rfl
  | cons label rest ih =>
    have hlabel : Label label := hlabels label List.mem_cons_self
    rw [List.mapM_cons, labelBytes_eq_some hlabel.ne_empty hlabel.le,
      ih fun other hother => hlabels other (List.mem_cons_of_mem label hother)]
    rfl

/-- What is left of a packet behind its labels is left to be read. -/
theorem readName_labels (hlabels : ∀ label ∈ labels, Label label) (left : List UInt8) (fuel : ℕ)
    (hfuel : labels.length < fuel) :
    readName fuel ((labels.map fun label =>
      UInt8.ofNat label.utf8ByteSize :: Text.bytes label).flatten ++ 0 :: left) =
      some (labels.map Text.bytes, left) := by
  induction labels generalizing fuel with
  | nil =>
    obtain ⟨fuel, rfl⟩ := Nat.exists_eq_succ_of_ne_zero (by omega : fuel ≠ 0)
    rfl
  | cons label rest ih =>
    obtain ⟨fuel, rfl⟩ := Nat.exists_eq_succ_of_ne_zero (by omega : fuel ≠ 0)
    have hlabel : Label label := hlabels label List.mem_cons_self
    have hle := hlabel.le
    have hpos := hlabel.pos
    have hrest := ih (fun other hother => hlabels other (List.mem_cons_of_mem label hother)) fuel
      (by simpa using hfuel)
    have hlength : (UInt8.ofNat label.utf8ByteSize).toNat = label.utf8ByteSize := by
      rw [UInt8.toNat_ofNat']
      omega
    have hzero : UInt8.ofNat label.utf8ByteSize ≠ 0 := by
      intro h
      rw [h] at hlength
      exact absurd hlength (by simpa using hpos.ne)
    rw [List.map_cons, List.flatten_cons, List.cons_append, List.cons_append, readName, if_neg hzero,
      hlength, if_neg, List.append_assoc, ← length_bytes, List.drop_left, hrest, List.take_left]
    · rfl
    · rw [List.append_assoc, List.length_append, length_bytes]
      omega

/-- Labels that all go on the wire are all short enough for it. -/
theorem label_of_mapM {parts : List (List UInt8)} (h : labels.mapM labelBytes = some parts) :
    ∀ label ∈ labels, label ≠ "" ∧ label.utf8ByteSize ≤ 63 := by
  induction labels generalizing parts with
  | nil => simp
  | cons label rest ih =>
    rw [List.mapM_cons] at h
    obtain ⟨first, hfirst, h⟩ := Option.bind_eq_some_iff.mp h
    obtain ⟨others, hothers, -⟩ := Option.bind_eq_some_iff.mp h
    rw [labelBytes] at hfirst
    split at hfirst
    · cases hfirst
    · rename_i hlabel
      rw [not_or, not_lt] at hlabel
      intro other hother
      rcases List.mem_cons.mp hother with rfl | hother
      · exact hlabel
      · exact ih hothers other hother

/-- The labels of a name are no more than their bytes. -/
theorem length_le_flatten (labels : List String) : labels.length ≤ (labels.map fun label =>
    UInt8.ofNat label.utf8ByteSize :: Text.bytes label).flatten.length := by
  induction labels with
  | nil => exact le_rfl
  | cons label rest ih =>
    rw [List.map_cons, List.flatten_cons, List.length_append, List.length_cons, List.length_cons]
    omega

theorem read_toBeBytes (recordType : DnsRecordType) :
    ∃ high low, toBeBytes (recordCode recordType) = [high, low] ∧
      high.toNat * 256 + low.toNat = (recordCode recordType).toNat := by
  cases recordType <;> exact ⟨_, _, rfl, rfl⟩

/-- A name with labels is asked for by them. -/
theorem dnsQuery_nameText (hne : labels ≠ []) (hlabels : ∀ label ∈ labels, Label label) (dots : ℕ)
    (recordType : DnsRecordType) : ∃ packet, dnsQuery (nameText labels dots) recordType = some packet ∧
      readQuestion packet = some (asked labels recordType) := by
  have hmap := mapM_labelBytes hlabels
  refine ⟨_, by rw [dnsQuery, split_nameText hne hlabels, hmap]; rfl, ?_⟩
  set flat := (labels.map fun label =>
    UInt8.ofNat label.utf8ByteSize :: Text.bytes label).flatten with hflat
  have hlength : labels.length ≤ flat.length := length_le_flatten labels
  obtain ⟨high, low, hcode, hnumber⟩ := read_toBeBytes recordType
  have hpacket : dnsHeader ++ flat ++ [0] ++ toBeBytes (recordCode recordType) ++ [0x00, 0x01] =
      dnsHeader ++ (flat ++ 0 :: [high, low, 0x00, 0x01]) := by
    rw [hcode]
    simp only [List.append_assoc, List.cons_append, List.nil_append]
  have hfuel : labels.length < (dnsHeader ++ (flat ++ 0 :: [high, low, 0x00, 0x01])).length := by
    simp only [List.length_append, List.length_cons]
    omega
  have hdrop : (dnsHeader ++ (flat ++ 0 :: [high, low, 0x00, 0x01])).drop 12 =
      flat ++ 0 :: [high, low, 0x00, 0x01] := rfl
  rw [readQuestion, hpacket, hdrop, hflat, readName_labels hlabels _ _ hfuel]
  simp only [asked, hnumber]
  rfl

/-- A name without labels is not asked for. -/
theorem dnsQuery_root (dots : ℕ) (recordType : DnsRecordType) :
    dnsQuery (nameText [] dots) recordType = none := by
  have htrimmed : Text.trimEndMatches (nameText [] dots) '.' = "" := by
    rw [trimEndMatches_nameText (by simp)]
    rfl
  rw [dnsQuery, htrimmed]
  rfl

end

/-- A query is built for the texts that are names with a label. -/
theorem isSome_dnsQuery_iff {name : String} {recordType : DnsRecordType} :
    (dnsQuery name recordType).isSome ↔ Labelled name := by
  constructor
  · intro h
    obtain ⟨packet, hpacket⟩ := Option.isSome_iff_exists.mp h
    rw [dnsQuery, Option.bind_eq_bind, Option.bind_eq_some_iff] at hpacket
    obtain ⟨labels, hmap, -⟩ := hpacket
    have hlabels : ∀ part ∈ Text.split (Text.trimEndMatches name '.') '.', Label part := by
      intro part hpart
      obtain ⟨hne, hle⟩ := label_of_mapM hmap part hpart
      obtain ⟨chars, hchars, rfl⟩ := List.mem_map.mp hpart
      refine ⟨Nat.pos_of_ne_zero fun hzero => hne ?_, hle, ?_⟩
      · exact String.utf8ByteSize_eq_zero_iff.mp hzero
      · rw [String.toList_ofList]
        exact Segments.notMem_of_mem_splitOn hchars
    refine ⟨_, (name.toList.rtakeWhile (· == '.')).length, ?_, hlabels, ?_⟩
    · simp [Text.split]
    · have hdots : name.toList.rtakeWhile (· == '.') =
          List.replicate (name.toList.rtakeWhile (· == '.')).length '.' :=
        List.eq_replicate_of_mem fun c hc => by simpa using List.mem_rtakeWhile_imp hc
      rw [nameText, ← hdots, Text.split, List.map_map]
      have hparts : (Text.trimEndMatches name '.').toList.splitOn '.' =
          ((Text.trimEndMatches name '.').toList.splitOn '.').map (String.toList ∘ String.ofList) := by
        simp [Function.comp_def]
      rw [← hparts, List.intercalate_splitOn, Text.trimEndMatches, String.toList_ofList,
        List.rdropWhile_append_rtakeWhile, String.ofList_toList]
  · rintro ⟨labels, dots, hne, hlabels, rfl⟩
    obtain ⟨packet, hpacket, -⟩ := dnsQuery_nameText hne hlabels dots recordType
    rw [hpacket]
    rfl

/-! ## The probes of a document -/

/-- What a health check asks name servers for. -/
def dnsProbe (check : Option HealthCheck) : Option (String × DnsRecordType) :=
  match check.map HealthCheck.probe with
  | some (.dnsQuery name recordType) => some (name, recordType)
  | _ => none

/-- What the pools of a document ask name servers for. -/
def dnsProbes (config : Config) : List (String × DnsRecordType) :=
  config.backends.filterMap fun backend => dnsProbe backend.healthCheck

section

variable (built : Applied)

theorem dnsProbes_addVip (values : Common) :
    dnsProbes (addVip built values).1.config = dnsProbes built.config := rfl

theorem dnsProbes_addCertificate (certificate : Certificate) :
    dnsProbes (addCertificate built certificate).config = dnsProbes built.config := rfl

theorem dnsProbes_addFrontend (frontend : Frontend) :
    dnsProbes (addFrontend built frontend).config = dnsProbes built.config := rfl

theorem dnsProbes_addBackend (id : String) (members : List BackendMember)
    (algorithm : LoadBalancingAlgorithm) (check : Option HealthCheck) (pooling : ConnectionPooling) :
    dnsProbes (addBackend built id members algorithm check pooling).1.config =
      dnsProbes built.config ++ (dnsProbe check).toList := by
  simp only [dnsProbes, addBackend, newBackend, List.filterMap_append, List.filterMap_cons,
    List.filterMap_nil]
  cases dnsProbe check <;> rfl

end

/-- The template for plain TCP is built as one nothing else matches. -/
theorem build_genericTcp (arguments : Arguments) (built : Applied) :
    build genericTcpTemplate arguments built = buildGenericTcp arguments
      (addVip built (common arguments)).1 (common arguments) (addVip built (common arguments)).2 := by
  rw [build]
  dsimp only
  split
  · rename_i hid
    exact absurd hid (by decide)
  · rename_i hid
    exact absurd hid (by decide)
  · rename_i hid
    exact absurd hid (by decide)
  · rename_i hid
    exact absurd hid (by decide)
  · rfl

/-- Only the template for DNS adds a query. -/
theorem dnsProbes_build {template : Template} (htemplate : template ∈ embedded) (arguments : Arguments)
    (config : Config) : dnsProbes (build template arguments ⟨config, []⟩).config =
      dnsProbes config ++ if template = dnsTemplate then [(".", .soa)] else [] := by
  simp only [embedded, List.mem_cons, List.not_mem_nil, or_false] at htemplate
  rcases htemplate with rfl | rfl | rfl | rfl | rfl
  · rw [if_neg (by decide)]
    simp only [build, websiteTemplate, Templates.template, buildWebsite, dnsProbes_addFrontend,
      dnsProbes_addBackend, dnsProbes_addCertificate, dnsProbes_addVip]
    rfl
  · rw [if_pos rfl]
    simp only [build, dnsTemplate, Templates.template, buildDns, dnsProbes_addFrontend,
      dnsProbes_addBackend, dnsProbes_addVip]
    rfl
  · rw [if_neg (by decide)]
    simp only [build, exchangeTemplate, Templates.template, buildExchange, dnsProbes_addFrontend,
      dnsProbes_addBackend, dnsProbes_addVip]
    simp only [dnsProbe, httpCheck, bannerCheck, Option.map_some, Option.toList_none, List.append_nil]
  · rw [if_neg (by decide)]
    simp only [build, smtpRelayTemplate, Templates.template, buildSmtpRelay, dnsProbes_addFrontend,
      dnsProbes_addBackend, dnsProbes_addVip]
    rfl
  · rw [if_neg (by decide)]
    rw [build_genericTcp]
    simp only [buildGenericTcp, dnsProbes_addFrontend, dnsProbes_addBackend, dnsProbes_addVip]
    rfl

/-- A template leaves a document whose queries can all be sent exactly if it is not the one for DNS and
the queries of the document could be sent before. A name is asked for by its labels exactly if it has
some. -/
theorem dnsQuery_iff_labels {template : Template} (htemplate : template ∈ embedded) {config : Config}
    {arguments : Arguments} {applied : Applied} (happly : apply template config arguments = .ok applied)
    {labels : List String} (hlabels : ∀ label ∈ labels, Label label) (dots : ℕ)
    (recordType : DnsRecordType) :
    ((∀ probe ∈ dnsProbes applied.config, (dnsQuery probe.1 probe.2).isSome) ↔
      template ≠ dnsTemplate ∧ ∀ probe ∈ dnsProbes config, Labelled probe.1) ∧
    ((∃ packet, dnsQuery (nameText labels dots) recordType = some packet ∧
      readQuestion packet = some (asked labels recordType)) ↔ labels ≠ []) := by
  refine ⟨?_, ?_, fun hne => dnsQuery_nameText hne hlabels dots recordType⟩
  · obtain ⟨-, rfl, -⟩ := apply_eq_ok.mp happly
    rw [dnsProbes_build htemplate, List.forall_mem_append, and_comm]
    refine and_congr ?_ (forall₂_congr fun probe _ => isSome_dnsQuery_iff)
    split
    · rename_i hdns
      refine iff_of_false (fun h => ?_) (fun h => h hdns)
      exact absurd (h _ List.mem_cons_self) (by decide)
    · rename_i hdns
      exact iff_of_true (by simp) hdns
  · rintro ⟨packet, hpacket, -⟩ rfl
    rw [dnsQuery_root] at hpacket
    cases hpacket

/-- A service over plain TCP, next to a name with two labels. -/
theorem generic_tcp_queries : (∃ applied,
    apply genericTcpTemplate oneNode (serviceOn (some 8080)) = .ok applied ∧
      ∀ probe ∈ dnsProbes applied.config, (dnsQuery probe.1 probe.2).isSome) ∧
    ∃ packet, dnsQuery "example.com." .a = some packet ∧
      readQuestion packet = some (asked ["example", "com"] .a) := by
  have happly : apply genericTcpTemplate oneNode (serviceOn (some 8080)) =
      .ok (build genericTcpTemplate (serviceOn (some 8080)) ⟨oneNode, []⟩) := by
    refine apply_eq_ok.mpr ⟨checkArguments_eq_nil.mpr ⟨by decide, by decide⟩, rfl, ?_⟩
    exact Validation.validate_eq_ok.mp (by decide +kernel)
  have hlabels : ∀ label ∈ ["example", "com"], Label label := by
    simp only [List.forall_mem_cons, List.not_mem_nil, false_implies, implies_true, and_true]
    exact ⟨⟨by decide, by decide, by decide⟩, ⟨by decide, by decide, by decide⟩⟩
  obtain ⟨hprobes, hquery⟩ := dnsQuery_iff_labels (by decide) happly hlabels 1 .a
  exact ⟨⟨_, happly, hprobes.mpr ⟨by decide, by rintro _ ⟨⟩⟩⟩, hquery.mpr (by decide)⟩

/-- The template for DNS asks for the root, which cannot be put in a query. -/
theorem dns_template_unencodable : ∃ applied,
    apply dnsTemplate oneNode (serviceOn none) = .ok applied ∧
      ∃ probe ∈ dnsProbes applied.config, probe.1 = nameText [] 1 ∧ dnsQuery probe.1 probe.2 = none := by
  refine ⟨build dnsTemplate (serviceOn none) ⟨oneNode, []⟩,
    apply_eq_ok.mpr ⟨checkArguments_eq_nil.mpr ⟨by decide, by decide⟩, rfl, ?_⟩, ?_⟩
  · exact Validation.validate_eq_ok.mp (by decide +kernel)
  · rw [dnsProbes_build (by decide)]
    exact ⟨_, List.mem_append_right _ List.mem_cons_self, rfl, rfl⟩

end EkEk.Dataplane
