import AsmOutline.Json.Reader
import AsmOutline.Proofs.ByteOrder
import AsmOutline.Proofs.KeywordEntries
import AsmOutline.Proofs.SortOrder
import AsmOutline.Proofs.WordCase
import Mathlib.Data.List.Dedup
import Mathlib.Data.List.Induction

/-! # Looking up keywords

A table holds the last entry of each name. Its entries come in the order of their names, in
whatever order they are kept, and a search for the start of a name leaves that order as it is.
-/
namespace AsmOutline
open Text

namespace KeywordTable

variable {entries : List Keyword}

theorem ofEntries_concat (entries : List Keyword) (entry : Keyword) :
    (ofEntries (entries ++ [entry])).entries = (ofEntries entries).entries.insert entry.name entry :=
  List.foldl_append

/-- The last entry of a name is kept. -/
theorem getElem?_ofEntries (entries : List Keyword) (name : Text) :
    (ofEntries entries).entries[name]? = (entries.filter (·.name = name)).getLast? := by
  induction entries using List.reverseRecOn with
  | nil => rfl
  | append_singleton entries entry ih =>
    rw [ofEntries_concat, Std.ExtTreeMap.getElem?_insert, List.filter_append, ih]
    by_cases hname : entry.name = name
    · simp [hname]
    · simp [hname]

theorem name_of_getElem? {name : Text} {entry : Keyword} (h : (ofEntries entries).entries[name]? = some entry) :
    entry.name = name := by
  rw [getElem?_ofEntries] at h
  simpa using (List.mem_filter.1 (List.mem_of_getLast? h)).2

theorem mem_ofEntries {name : Text} : name ∈ (ofEntries entries).entries ↔ name ∈ entries.map Keyword.name := by
  rw [Std.ExtTreeMap.mem_iff_isSome_getElem?, getElem?_ofEntries, List.getLast?_isSome, Ne,
    List.filter_eq_nil_iff]
  simp

theorem size_ofEntries (entries : List Keyword) :
    (ofEntries entries).size = (entries.map Keyword.name).dedup.length := by
  have hsame : (ofEntries entries).entries.keys.Perm (entries.map Keyword.name).dedup := by
    apply (List.perm_ext_iff_of_nodup Std.ExtTreeMap.nodup_keys (List.nodup_dedup _)).2
    intro name
    rw [Std.ExtTreeMap.mem_keys, mem_ofEntries, List.mem_dedup]
  rw [size, ← Std.ExtTreeMap.length_keys, hsame.length_eq]

theorem mem_toList_ofEntries {entry : Keyword} :
    entry ∈ (ofEntries entries).toList ↔ (ofEntries entries).entries[entry.name]? = some entry := by
  simp only [toList, List.mem_map, Prod.exists, exists_eq_right, Std.ExtTreeMap.mem_toList_iff_getElem?_eq_some]
  constructor
  · rintro ⟨name, h⟩
    rwa [name_of_getElem? h]
  · exact fun h => ⟨_, h⟩

/-- The entries are in the order of the bytes of their names. -/
theorem toList_ofEntries_pairwise (entries : List Keyword) :
    (ofEntries entries).toList.Pairwise fun a b => utf8 a.name < utf8 b.name := by
  rw [toList, List.pairwise_map]
  apply (Std.ExtTreeMap.ordered_keys_toList).imp_of_mem
  intro a b ha hb hlt
  rw [name_of_getElem? (Std.ExtTreeMap.mem_toList_iff_getElem?_eq_some.1 ha),
    name_of_getElem? (Std.ExtTreeMap.mem_toList_iff_getElem?_eq_some.1 hb)]
  exact utf8_lt_of_compare hlt

theorem isSought_iff {start : Text} {dialect : Option Dialect} {entry : Keyword} :
    isSought start dialect entry = true ↔
      upper start <+: entry.name ∧ (entry.dialect = none ∨ entry.dialect = dialect ∨ dialect = none) := by
  unfold isSought
  rw [Bool.and_eq_true, List.isPrefixOf_iff_prefix]
  apply and_congr_right
  intro _
  obtain ⟨name, kind, instructionSet, bound, description⟩ := entry
  cases dialect with
  | none => simp
  | some wanted =>
    cases bound with
    | none => simp
    | some bound =>
      simp only [beq_iff_eq, reduceCtorEq, Option.some.injEq, or_false, false_or]
      exact eq_comm

def nameLe (a b : Keyword) : Bool :=
  decide (utf8 a.name ≤ utf8 b.name)

/-- From whatever order the entries are kept in, sorting by name leads to the order of the table. -/
theorem sort_eq_startingWith {values : List Keyword} (h : values.Perm (ofEntries entries).toList) (start : Text)
    (dialect : Option Dialect) :
    sortStable nameLe (values.filter (isSought start dialect)) =
      (ofEntries entries).startingWith start dialect := by
  apply sortStable_eq_of_perm
  · intro a b
    simp only [nameLe, decide_eq_true_eq]
    exact List.le_total _ _
  · intro a b c
    simp only [nameLe, decide_eq_true_eq]
    exact List.le_trans
  · exact h.filter _
  · apply ((toList_ofEntries_pairwise entries).filter _).imp
    intro a b hlt
    simp only [nameLe, decide_eq_true_eq, decide_eq_false_iff_not]
    exact ⟨List.le_of_lt hlt, not_not.2 hlt⟩

theorem get?_ofEntries (h : ∀ entry ∈ entries, upper entry.name = entry.name) (name : Text) :
    (ofEntries entries).get? name = (entries.filter (sameLetters ·.name name)).getLast? := by
  have hnames : entries.filter (·.name = upper name) = entries.filter (sameLetters ·.name name) := by
    apply List.filter_congr
    intro entry hentry
    rw [Bool.eq_iff_iff, decide_eq_true_eq, sameLetters_iff, h entry hentry]
  rw [get?_eq, getElem?_ofEntries, hnames]

theorem upper_name_of_describes {items : List Json} (h : List.Forall₂ Keyword.Describes items entries) :
    ∀ entry ∈ entries, upper entry.name = entry.name := by
  induction h with
  | nil => exact List.forall_mem_nil _
  | cons hentry _ ih =>
    obtain ⟨name, _, hname⟩ := hentry.name
    exact List.forall_mem_cons.2 ⟨by rw [hname, upper_upper], ih⟩

theorem get?_name_iff (h : ∀ entry ∈ entries, upper entry.name = entry.name) {entry : Keyword} :
    (ofEntries entries).get? entry.name = some entry ↔ (ofEntries entries).entries[entry.name]? = some entry := by
  rw [get?_eq]
  constructor
  · intro hget
    have hname := name_of_getElem? hget
    rwa [hname]
  · intro hget
    have hmem : entry ∈ entries := by
      rw [getElem?_ofEntries] at hget
      exact (List.mem_filter.1 (List.mem_of_getLast? hget)).1
    rwa [h entry hmem]

/-- What can be found in a table of these entries. -/
structure Holds (entries : List Keyword) (table : KeywordTable) : Prop where
  failure : table.failure = none
  get? : ∀ name, table.get? name = (entries.filter (sameLetters ·.name name)).getLast?
  get?_upper : ∀ name, table.get? name = table.entries[upper name]?
  size : table.size = (entries.map Keyword.name).dedup.length
  startingWith_sorted : ∀ start dialect,
    (table.startingWith start dialect).Pairwise fun a b => utf8 a.name < utf8 b.name
  mem_startingWith : ∀ start dialect entry, entry ∈ table.startingWith start dialect ↔
    table.get? entry.name = some entry ∧ upper start <+: entry.name ∧
      (entry.dialect = none ∨ entry.dialect = dialect ∨ dialect = none)
  startingWith_of_perm : ∀ start dialect (values : List Keyword), values.Perm table.toList →
    sortStable nameLe (values.filter (isSought start dialect)) = table.startingWith start dialect

theorem holds_ofEntries (h : ∀ entry ∈ entries, upper entry.name = entry.name) :
    Holds entries (ofEntries entries) where
  failure := rfl
  get? := get?_ofEntries h
  get?_upper := get?_eq _
  size := size_ofEntries entries
  startingWith_sorted _ _ := (toList_ofEntries_pairwise entries).filter _
  mem_startingWith start dialect entry := by
    rw [startingWith, List.mem_filter, mem_toList_ofEntries, isSought_iff, get?_name_iff h]
  startingWith_of_perm start dialect _ hperm := sort_eq_startingWith hperm start dialect

/-- A value without a list is at fault in entry 0. A list is refused for the first item that
describes no entry; otherwise the table holds the last entry of each name. -/
theorem parse_refuses_or_holds {readJson : JsonReader} {text : Text} {root : Json}
    (hjson : readJson text = some root) :
    ((∀ items, ¬Lists root items) →
        ∃ fault reason, parse readJson text = .error fault ∧ fault.schema? = some (0, reason) ∧
          fault.message = s!"keyword table entry 0: {reason}") ∧
      ∀ items, Lists root items →
        (∀ fault, parse readJson text = .error fault ↔ Keyword.FirstFault items fault) ∧
          ((∀ fault, ¬Keyword.FirstFault items fault) →
            ∃ entries table, List.Forall₂ Keyword.Describes items entries ∧ parse readJson text = .ok table ∧
              Holds entries table) := by
  have hparse : parse readJson text = ofJson root := by rw [parse, hjson]
  constructor
  · intro hnone
    obtain ⟨fault, reason, hlist, hschema⟩ := entryList_of_not_lists hnone
    refine ⟨fault, reason, ?_, hschema, TableFault.message_of_schema? hschema⟩
    rw [hparse, ofJson, hlist]
  · intro items hlists
    have hitems : parse readJson text = (Keyword.ofItems 0 items).map ofEntries := by
      rw [hparse, ofJson, hlists.entryList_eq]
    obtain ⟨hfails, hgives⟩ := Keyword.ofItems_outcome items
    constructor
    · intro fault
      rw [hitems, ← hfails]
      cases Keyword.ofItems 0 items <;> simp [Except.map]
    · intro hvalid
      obtain ⟨entries, hentries⟩ := (Keyword.firstFault_or_describes items).resolve_left (not_exists.2 hvalid)
      refine ⟨entries, ofEntries entries, hentries, ?_, holds_ofEntries (upper_name_of_describes hentries)⟩
      rw [hitems, (hgives entries).2 hentries]
      rfl

/-- Two spellings of one name, of which the second is kept. -/
theorem parse_holds_later_spelling :
    let text := "[\x7b\"kind\": \"jump\", \"name\": \" jmp\"\x7d,".toList ++
      "\x7b\"kind\": \"misc\", \"name\": \"Jmp\"\x7d]".toList
    ∃ table, parse Json.parse? text = .ok table ∧
      table.get? "jMP".toList = some ⟨"JMP".toList, .misc, none, none, ""⟩ ∧
      table.size = 1 := by
  intro text
  let items : List Json :=
    [.obj [("kind", .str "jump"), ("name", .str " jmp")], .obj [("kind", .str "misc"), ("name", .str "Jmp")]]
  have hread : Keyword.ofItems 0 items =
      .ok [⟨"JMP".toList, .jump, none, none, ""⟩, ⟨"JMP".toList, .misc, none, none, ""⟩] := rfl
  obtain ⟨hfails, hgives⟩ := Keyword.ofItems_outcome items
  obtain ⟨_, hlist⟩ := parse_refuses_or_holds (show Json.parse? text = some (.arr items) by rfl)
  have hvalid : ∀ fault, ¬Keyword.FirstFault items fault := by
    intro fault hfault
    cases hread.symm.trans ((hfails fault).2 hfault)
  obtain ⟨entries, table, hentries, hparse, hholds⟩ := (hlist items (.array items)).2 hvalid
  cases hread.symm.trans ((hgives entries).2 hentries)
  refine ⟨table, hparse, ?_, ?_⟩
  · rw [hholds.get?]
    rfl
  · rw [hholds.size]
    decide

end KeywordTable
end AsmOutline
