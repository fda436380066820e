import BrokerBridge.World.Request
import Mathlib.Data.List.Dedup
import Mathlib.Data.List.Sort

/-!
# Whitelists

`normalize_whitelist` takes a broker's whitelist as JSON or as XML, and makes a sorted
list without duplicates of it. What the two parsers of the standard library return is a
parameter. The texts of XML elements are stripped, the strings of a JSON array are not:
the formats agree on the lists whose entries have no whitespace around them.
-/

namespace BrokerBridge.Whitelist

open Text

/-! ## The normaliser -/

/-- What `json.loads` returns, as far as it is looked at; the entries are strings. -/
inductive Loaded where
  | object (ips addresses : Option (List String))
  | array (xs : List String)
  | other

structure XmlNode where
  tag : String
  text : Option String

/-- `json.loads` and, with `iter`, `ElementTree.fromstring`. -/
structure Parsers where
  loads : String → Except Exn Loaded
  fromstring : String → Except Exn (List XmlNode)

/-- What `normalize_whitelist` returns. -/
structure Normalized where
  ips : List String
  count : Nat
  sorted : ips.Pairwise (· < ·)
  counted : count = ips.length

/-- `list(data.get("ips") or data.get("addresses") or [])`, or the array itself. -/
def Loaded.ips : Loaded → List String
  | .object ips addresses =>
      let given := ips.getD []
      if given ≠ [] then given else addresses.getD []
  | .array xs => xs
  | .other => []

/-- `tag.split("}")[-1].lower()` is one of the names of an address. -/
def isAddress (tag : String) : Bool :=
  let name := (tag.toList.reverse.takeWhile (· ≠ '}')).reverse.flatMap lowerChar
  name ∈ ["ip".toList, "address".toList, "ipv4".toList]

/-- The text of an element, stripped, unless it has none or an empty one. -/
def XmlNode.ip? (node : XmlNode) : Option String :=
  if isAddress node.tag then (node.text.filter (· ≠ "")).map strip else none

/-- `sorted({ip for ip in ips if ip})` -/
def unique (ips : List String) : List String :=
  (ips.filter (· ≠ "")).dedup.insertionSort (· ≤ ·)

theorem mem_unique {ips : List String} {x : String} : x ∈ unique ips ↔ x ∈ ips ∧ x ≠ "" := by
  rw [unique, List.mem_insertionSort, List.mem_dedup, List.mem_filter, decide_eq_true_eq]

theorem sorted_unique (ips : List String) : (unique ips).Pairwise (· < ·) := by
  have hsorted := List.pairwise_insertionSort (· ≤ ·) (ips.filter (· ≠ "")).dedup
  have hnodup : (unique ips).Nodup :=
    (List.perm_insertionSort (· ≤ ·) _).nodup_iff.mpr (List.nodup_dedup _)
  exact (hsorted.and hnodup).imp fun ⟨hle, hne⟩ => lt_of_le_of_ne hle hne

def normalized (ips : List String) : Normalized where
  ips := unique ips
  count := (unique ips).length
  sorted := sorted_unique ips
  counted := rfl

/-- `normalize_whitelist` -/
def normalizeWhitelist (p : Parsers) (rawFormat rawPayload : String) : Except Exn Normalized :=
  let fmt := lower rawFormat
  if fmt = "json" then do
    let data ← p.loads rawPayload
    pure (normalized data.ips)
  else if fmt = "xml" then do
    let nodes ← p.fromstring rawPayload
    pure (normalized (nodes.filterMap XmlNode.ip?))
  else
    .error (.app "VALIDATION_ERROR" s!"Unsupported whitelist format: {rawFormat}" 422)

/-! ## One list in both formats -/

/-- An array, or an object that has the list under one of the two names. -/
inductive JsonEncodes (entries : List String) : Loaded → Prop where
  | array : JsonEncodes entries (.array entries)
  | ips : JsonEncodes entries (.object (some entries) none)
  | addresses : JsonEncodes entries (.object none (some entries))

/-- An `ip` element; an empty one has no text. -/
def ipElement (entry : String) : XmlNode where
  tag := "ip"
  text := if entry = "" then none else some entry

/-- One `ip` element for each entry, below a root of some other name. -/
def XmlEncodes (entries : List String) (nodes : List XmlNode) : Prop :=
  ∃ root : XmlNode, isAddress root.tag = false ∧ nodes = root :: entries.map ipElement

variable {entries : List String}

theorem JsonEncodes.ips_eq {data : Loaded} (h : JsonEncodes entries data) : data.ips = entries := by
  cases h with
  | array => rfl
  | ips =>
      cases entries <;> rfl
  | addresses => rfl

theorem ip?_ipElement (entry : String) :
    (ipElement entry).ip? = if entry = "" then none else some (strip entry) := by
  have haddress : isAddress (ipElement entry).tag = true := (by decide : isAddress "ip" = true)
  rw [XmlNode.ip?, if_pos haddress]
  by_cases h : entry = ""
  · simp [ipElement, h]
  · simp [ipElement, h]

theorem XmlEncodes.ips_eq {nodes : List XmlNode} (h : XmlEncodes entries nodes) :
    nodes.filterMap XmlNode.ip? = (entries.filter (· ≠ "")).map strip := by
  obtain ⟨root, hroot, rfl⟩ := h
  have hnone : root.ip? = none := by
    rw [XmlNode.ip?, hroot]
    rfl
  rw [List.filterMap_cons, hnone, List.filterMap_map]
  simp only []
  induction entries with
  | nil => rfl
  | cons entry entries ih =>
      rw [List.filterMap_cons, Function.comp_apply, ip?_ipElement, ih]
      by_cases h : entry = ""
      · simp [h]
      · simp [h]

theorem normalize_json {p : Parsers} {json : String} {data : Loaded}
    (hloads : p.loads json = .ok data) (hdata : JsonEncodes entries data) :
    normalizeWhitelist p "json" json = .ok (normalized entries) := by
  have hformat : lower "json" = "json" := by decide +kernel
  simp only [normalizeWhitelist, hformat, if_true, hloads, ← hdata.ips_eq]
  rfl

theorem normalize_xml {p : Parsers} {xml : String} {nodes : List XmlNode}
    (hxml : p.fromstring xml = .ok nodes) (hnodes : XmlEncodes entries nodes) :
    normalizeWhitelist p "xml" xml =
      .ok (normalized ((entries.filter (· ≠ "")).map strip)) := by
  have hformat : lower "xml" = "xml" := by decide +kernel
  have hother : "xml" ≠ "json" := by decide
  simp only [normalizeWhitelist, hformat, if_neg hother, if_true, hxml, ← hnodes.ips_eq]
  rfl

/-- An entry that is not stripped is in the list made from JSON, and not in the other. -/
theorem strip_eq_of_agree
    (h : normalized entries = normalized ((entries.filter (· ≠ "")).map strip))
    {entry : String} (hentry : entry ∈ entries) : strip entry = entry := by
  by_cases hempty : entry = ""
  · rw [hempty]
    exact strip_empty
  have hjson : entry ∈ unique entries := mem_unique.mpr ⟨hentry, hempty⟩
  have hips : unique entries = unique ((entries.filter (· ≠ "")).map strip) :=
    congrArg Normalized.ips h
  rw [hips] at hjson
  obtain ⟨t, _, rfl⟩ := List.mem_map.mp (mem_unique.mp hjson).1
  exact strip_strip t

/-- Both formats of a list give the same result exactly when no entry has whitespace
around it. -/
theorem normalizeWhitelist_agree_iff (p : Parsers) (entries : List String) (json xml : String)
    {data : Loaded} {nodes : List XmlNode} (hloads : p.loads json = .ok data)
    (hdata : JsonEncodes entries data) (hxml : p.fromstring xml = .ok nodes)
    (hnodes : XmlEncodes entries nodes) :
    normalizeWhitelist p "json" json = normalizeWhitelist p "xml" xml ↔
      ∀ entry ∈ entries, strip entry = entry := by
  rw [normalize_json hloads hdata, normalize_xml hxml hnodes]
  constructor
  · exact fun heq entry hentry => strip_eq_of_agree (Except.ok.inj heq) hentry
  · intro hstripped
    have hmap : (entries.filter (· ≠ "")).map strip = entries.filter (· ≠ "") := by
      conv_rhs => rw [← List.map_id (entries.filter (· ≠ ""))]
      exact List.map_congr_left fun x hx => hstripped x (List.mem_of_mem_filter hx)
    have hunique : unique (entries.filter (· ≠ "")) = unique entries := by
      rw [unique, List.filter_filter]
      simp only [Bool.and_self]
      rfl
    have hsame : normalized (entries.filter (· ≠ "")) = normalized entries := by
      unfold normalized
      simp only [hunique]
    rw [hmap, hsame]

/-! ## Two payloads -/

/-- One of them is there twice, and one is empty. -/
def repeated : List String := ["198.51.100.7", "", "192.0.2.1", "198.51.100.7"]

def repeatedJson : String := "[\"198.51.100.7\",\"\",\"192.0.2.1\",\"198.51.100.7\"]"

def repeatedXml : String :=
  "<w><ip>198.51.100.7</ip><ip/><ip>192.0.2.1</ip><ip>198.51.100.7</ip></w>"

/-- Parsers that know two payloads of each format. -/
def sampleParsers : Parsers where
  loads payload :=
    if payload = repeatedJson then .ok (.array repeated) else .ok (.array [" 198.51.100.7"])
  fromstring payload :=
    if payload = repeatedXml then .ok (⟨"w", none⟩ :: repeated.map ipElement)
    else .ok (⟨"w", none⟩ :: [" 198.51.100.7"].map ipElement)

theorem normalizeWhitelist_agree_repeated :
    normalizeWhitelist sampleParsers "json" repeatedJson =
      normalizeWhitelist sampleParsers "xml" repeatedXml :=
  (normalizeWhitelist_agree_iff sampleParsers repeated repeatedJson repeatedXml rfl .array rfl
    ⟨_, by decide, rfl⟩).mpr (by decide +kernel)

/-- A leading space. -/
theorem normalizeWhitelist_differ :
    JsonEncodes [" 198.51.100.7"] (.array [" 198.51.100.7"]) ∧
      XmlEncodes [" 198.51.100.7"] (⟨"w", none⟩ :: [" 198.51.100.7"].map ipElement) ∧
      normalizeWhitelist sampleParsers "json" "[\" 198.51.100.7\"]" ≠
        normalizeWhitelist sampleParsers "xml" "<w><ip> 198.51.100.7</ip></w>" := by
  have hnodes : XmlEncodes [" 198.51.100.7"] (⟨"w", none⟩ :: [" 198.51.100.7"].map ipElement) :=
    ⟨_, by decide, rfl⟩
  refine ⟨.array, hnodes, fun heq => ?_⟩
  rw [normalize_json (p := sampleParsers) rfl .array, normalize_xml rfl hnodes] at heq
  have := strip_eq_of_agree (Except.ok.inj heq) (List.mem_singleton.mpr rfl)
  exact absurd this (by decide +kernel)

end BrokerBridge.Whitelist
