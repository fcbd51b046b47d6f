import Papiex.Lib.CsvTable
import Papiex.Report.Csv
import Mathlib.Data.List.Forall2
import Mathlib.Data.List.Sort

/-!
# The table of several count files

`papiex-output2csv.py` reads each count file into a dictionary and writes one table: a line
of all the keys, sorted, and a line for each file.  A file that has no value for a key has an
empty field there.  No value of a dictionary is empty, so the table can be taken apart again.

## Main results

* `csvKeys_sorted`, `csvKeys_nodup`: the line of keys.
* `csv_table_recovers`: the table can be taken apart again.
-/

namespace Papiex

open Chars LastWrite

/-! ## `dictlist2csv` -/

/-- The order of texts. -/
def textLe : Text → Text → Bool
  | [], _ => true
  | _ :: _, [] => false
  | c :: text, d :: other => c.toNat < d.toNat || c.toNat = d.toNat && textLe text other

/-- `sorted(list(keys_set))`. -/
def csvKeys (dlist : List (Hash Text)) : List Text :=
  (dlist.flatMap AList.keys).dedup.mergeSort textLe

/-- The csv module gets to a text up to its first NUL. -/
def upToNul (text : Text) : Text := text.takeWhile (· ≠ Char.ofNat 0)

/-- The line of a dictionary, `''` where it has no value. -/
def csvRow (keys : List Text) (d : Hash Text) : List Text := keys.map fun k => (d.lookup k).getD []

/-- `dictlist2csv`. -/
def dictlist2csv (dlist : List (Hash Text)) : Text :=
  let keys := csvKeys dlist
  CsvTable.write ((keys :: dlist.map (csvRow keys)).map fun row => row.map upToNul)

/-- The dictionaries of the files; the global `quiet` has no part in them. -/
def csvDicts (files : List Text) : List (Hash Text) :=
  files.map fun file => (input2dict false file).1

/-- The lines of the table. -/
def csvTexts (files : List Text) : List (List Text) :=
  csvKeys (csvDicts files) :: (csvDicts files).map (csvRow (csvKeys (csvDicts files)))

/-! ## The characters of a dictionary -/

/-- What is in a line is in the text. -/
theorem mem_of_mem_keepLines {text line : Text} {c : Char} (h : line ∈ keepLines text)
    (hc : c ∈ line) : c ∈ text := by
  induction text generalizing line with
  | nil => cases h
  | cons d text ih =>
      unfold keepLines at h
      split at h
      · rename_i hnewline
        rcases List.mem_cons.mp h with rfl | hlater
        · rw [hnewline]
          exact List.mem_cons.mpr (.inl (List.mem_singleton.mp hc))
        · exact List.mem_cons_of_mem _ (ih hlater hc)
      · cases hlines : keepLines text with
        | nil =>
            rw [hlines] at h
            rw [List.mem_singleton.mp h] at hc
            exact List.mem_cons.mpr (.inl (List.mem_singleton.mp hc))
        | cons first rest =>
            rw [hlines] at h ih
            rcases List.mem_cons.mp h with rfl | hlater
            · rcases List.mem_cons.mp hc with rfl | hfirst
              · exact List.mem_cons_self
              · exact List.mem_cons_of_mem _ (ih List.mem_cons_self hfirst)
            · exact List.mem_cons_of_mem _ (ih (List.mem_cons_of_mem _ hlater) hc)

theorem eq_of_cut_eq_some {separator text front back : Text}
    (h : cut separator text = some (front, back)) : text = front ++ (separator ++ back) := by
  induction text generalizing front back with
  | nil =>
      obtain ⟨rest, hrest, heq⟩ := Option.map_eq_some_iff.mp h
      cases heq
      exact (dropPrefix_eq_some_iff.mp hrest : [] = separator ++ _)
  | cons c text ih =>
      unfold cut at h
      cases hdrop : dropPrefix separator (c :: text) with
      | some rest =>
          rw [hdrop] at h
          cases h
          exact (dropPrefix_eq_some_iff.mp hdrop : c :: text = separator ++ _)
      | none =>
          rw [hdrop] at h
          obtain ⟨⟨first, last⟩, hcut, heq⟩ := Option.map_eq_some_iff.mp h
          cases heq
          exact congrArg (List.cons c) (ih hcut)

theorem splitOnce_subset (separator line : Text) :
    (splitOnce separator line).1 ⊆ line ∧ (splitOnce separator line).2 ⊆ line := by
  unfold splitOnce
  cases hcut : cut separator line with
  | none => exact ⟨List.Subset.refl _, List.Subset.refl _⟩
  | some split =>
      rw [eq_of_cut_eq_some hcut]
      exact ⟨List.subset_append_left _ _,
        List.Subset.trans (List.subset_append_right _ _) (List.subset_append_right _ _)⟩

theorem rstrip_subset (text : Text) : rstrip text ⊆ text := (List.rdropWhile_prefix _ text).subset

theorem strip_subset (text : Text) : strip text ⊆ text :=
  List.Subset.trans (rstrip_subset _) (List.dropWhile_suffix _).subset

theorem mem_of_mem_commas {text : Text} {c : Char} (h : c ∈ commas text) : c ∈ text ∨ c = '_' := by
  obtain ⟨d, hd, rfl⟩ := List.mem_map.mp h
  split
  · exact .inr rfl
  · exact .inl hd

/-- The characters of a tuple come from its line, but for what commas become. -/
theorem mem_of_csvTuple {line key val : Text} (h : csvTuple line = some (key, val)) :
    (∀ c, c ∈ key ∨ c ∈ val → c ∈ line ∨ c = '_') ∧ val ≠ [] := by
  obtain ⟨hextract, hval⟩ := Option.filter_eq_some_iff.mp h
  refine ⟨fun c hc => ?_, of_decide_eq_true hval⟩
  unfold csvExtract at hextract
  dsimp only at hextract
  split at hextract
  · cases hextract
    obtain ⟨hfront, hback⟩ := splitOnce_subset " ".toList line
    rcases hc with hc | hc
    · exact (mem_of_mem_commas hc).imp_left fun hmem => hback (strip_subset _ hmem)
    · exact (mem_of_mem_commas hc).imp_left fun hmem => hfront hmem
  · split at hextract
    · cases hextract
      obtain ⟨hfront, hback⟩ := splitOnce_subset " : ".toList line
      rcases hc with hc | hc
      · exact (mem_of_mem_commas hc).imp_left fun hmem => hfront (rstrip_subset _ hmem)
      · exact (mem_of_mem_commas hc).imp_left fun hmem => hback (strip_subset _ hmem)
    · cases hextract

/-- What is in a dictionary comes from its file, and no value is empty. -/
theorem mem_of_lookup_input2dict {file key val : Text}
    (h : (input2dict false file).1.lookup key = some val) :
    (∀ c, c ∈ key ∨ c ∈ val → c ∈ file ∨ c = '_') ∧ val ≠ [] := by
  rw [lookup_input2dict] at h
  obtain ⟨line, hline, hstored⟩ := (of_after_eq_some h).resolve_left nofun
  obtain ⟨⟨k, v⟩, htuple, heq⟩ := Option.bind_eq_some_iff.mp hstored
  dsimp only at heq
  split at heq
  · rename_i hkey
    cases heq
    rw [← hkey] at htuple
    obtain ⟨hchars, hval⟩ := mem_of_csvTuple htuple
    refine ⟨fun c hc => (hchars c hc).imp_left fun hmem => ?_, hval⟩
    exact mem_of_mem_keepLines ((List.takeWhile_prefix _).subset hline) hmem
  · cases heq

/-! ## Taking the table apart -/

/-- The keys of the table are those of the dictionaries. -/
theorem mem_csvKeys {dlist : List (Hash Text)} {key : Text} :
    key ∈ csvKeys dlist ↔ ∃ d ∈ dlist, ∃ val, d.lookup key = some val := by
  unfold csvKeys
  rw [List.mem_mergeSort, List.mem_dedup, List.mem_flatMap]
  refine exists_congr fun d => and_congr_right fun _ => ?_
  rw [← Option.isSome_iff_exists, AList.lookup_isSome]
  exact AList.mem_keys.symm

theorem csvKeys_nodup (dlist : List (Hash Text)) : (csvKeys dlist).Nodup :=
  (List.mergeSort_perm _ _).nodup_iff.mpr (List.nodup_dedup _)

theorem textLe_trans (text other third : Text) (h : textLe text other = true)
    (hthird : textLe other third = true) : textLe text third = true := by
  induction text generalizing other third with
  | nil => rfl
  | cons c text ih =>
      cases other with
      | nil => cases h
      | cons d other =>
          cases third with
          | nil => cases hthird
          | cons e third =>
              simp only [textLe, Bool.or_eq_true, decide_eq_true_eq, Bool.and_eq_true] at *
              rcases h with hlt | ⟨heq, hle⟩
              · rcases hthird with hlt' | ⟨heq', -⟩ <;> exact .inl (by omega)
              · rcases hthird with hlt' | ⟨heq', hle'⟩
                · exact .inl (by omega)
                · exact .inr ⟨by omega, ih other third hle hle'⟩

theorem textLe_total (text other : Text) : (textLe text other || textLe other text) = true := by
  induction text generalizing other with
  | nil => rfl
  | cons c text ih =>
      cases other with
      | nil => rfl
      | cons d other =>
          have hrest := ih other
          simp only [textLe, Bool.or_eq_true, decide_eq_true_eq, Bool.and_eq_true] at *
          rcases lt_trichotomy c.toNat d.toNat with hlt | heq | hgt
          · exact .inl (.inl hlt)
          · exact hrest.imp (fun h => .inr ⟨heq, h⟩) fun h => .inr ⟨heq.symm, h⟩
          · exact .inr (.inl hgt)

/-- **The keys are sorted.** -/
theorem csvKeys_sorted (dlist : List (Hash Text)) :
    (csvKeys dlist).Pairwise fun key other => textLe key other = true :=
  List.pairwise_mergeSort textLe_trans textLe_total _

/-- The fields of a line stand under the keys. -/
theorem mem_zip_csvRow {keys : List Text} {d : Hash Text} {key val : Text} :
    (key, val) ∈ keys.zip (csvRow keys d) ↔ key ∈ keys ∧ val = (d.lookup key).getD [] := by
  unfold csvRow
  rw [← List.map_prod_left_eq_zip, List.mem_map]
  constructor
  · rintro ⟨k, hk, heq⟩
    cases heq
    exact ⟨hk, rfl⟩
  · rintro ⟨hkey, rfl⟩
    exact ⟨key, hkey, rfl⟩

theorem upToNul_of_not_mem {text : Text} (h : Char.ofNat 0 ∉ text) : upToNul text = text :=
  List.takeWhile_eq_self_iff.mpr fun c hc => decide_eq_true fun heq : c = _ => h (heq ▸ hc)

/-- The csv module takes a text without a NUL as it is. -/
theorem map_upToNul {rows : List (List Text)}
    (h : ∀ row ∈ rows, ∀ text ∈ row, Char.ofNat 0 ∉ text) :
    rows.map (fun row => row.map upToNul) = rows := by
  refine (List.map_congr_left fun row hrow => ?_).trans (List.map_id rows)
  refine (List.map_congr_left fun text htext => ?_).trans (List.map_id row)
  exact upToNul_of_not_mem (h row hrow text htext)

/-- The characters of the table are those of the files. -/
theorem mem_of_mem_csvTexts {files : List Text} {row : List Text} {text : Text} {c : Char}
    (hrow : row ∈ csvTexts files) (htext : text ∈ row) (hc : c ∈ text) :
    (∃ file ∈ files, c ∈ file) ∨ c = '_' := by
  have hdict : ∀ d ∈ csvDicts files, ∀ key val, d.lookup key = some val → c ∈ key ∨ c ∈ val →
      (∃ file ∈ files, c ∈ file) ∨ c = '_' := by
    intro d hd key val hlookup hmem
    obtain ⟨file, hfile, rfl⟩ := List.mem_map.mp hd
    exact ((mem_of_lookup_input2dict hlookup).1 c hmem).imp_left fun h => ⟨file, hfile, h⟩
  rcases List.mem_cons.mp hrow with rfl | hrow
  · obtain ⟨d, hd, val, hlookup⟩ := mem_csvKeys.mp htext
    exact hdict d hd text val hlookup (.inl hc)
  · obtain ⟨d, hd, rfl⟩ := List.mem_map.mp hrow
    obtain ⟨key, -, rfl⟩ := List.mem_map.mp htext
    cases hlookup : d.lookup key with
    | none =>
        rw [hlookup] at hc
        cases hc
    | some val =>
        rw [hlookup] at hc
        exact hdict d hd key val hlookup (.inr hc)

/-- **The table holds the dictionaries of the files.**  A reader of comma-separated text
finds a line of keys, sorted and each once, and a line for each file; and the value a file
has for a key is what stands in its line under the key, if something stands there. -/
theorem csv_table_recovers (files : List Text)
    (hplain : ∀ file ∈ files, '\r' ∉ file ∧ Char.ofNat 0 ∉ file) :
    ∃ keys rows, CsvTable.read (dictlist2csv (csvDicts files)) = .ok (keys :: rows) ∧
      keys.Nodup ∧ keys.Pairwise (fun key other => textLe key other = true) ∧
      List.Forall₂ (fun file row => row.length = keys.length ∧
        ∀ key val, (input2dict false file).1.lookup key = some val ↔
          (key, val) ∈ keys.zip row ∧ val ≠ []) files rows := by
  have hplaced : ∀ row ∈ csvTexts files, ∀ text ∈ row, '\r' ∉ text ∧ Char.ofNat 0 ∉ text := by
    intro row hrow text htext
    refine ⟨fun hc => ?_, fun hc => ?_⟩
    · rcases mem_of_mem_csvTexts hrow htext hc with ⟨file, hfile, hmem⟩ | heq
      · exact (hplain file hfile).1 hmem
      · cases heq
    · rcases mem_of_mem_csvTexts hrow htext hc with ⟨file, hfile, hmem⟩ | heq
      · exact (hplain file hfile).2 hmem
      · cases heq
  refine ⟨csvKeys (csvDicts files), (csvDicts files).map (csvRow (csvKeys (csvDicts files))), ?_,
    csvKeys_nodup _, csvKeys_sorted _, ?_⟩
  · show CsvTable.read (CsvTable.write ((csvTexts files).map fun row => row.map upToNul)) = _
    rw [map_upToNul fun row hrow text htext => (hplaced row hrow text htext).2]
    exact CsvTable.read_write fun row hrow text htext => (hplaced row hrow text htext).1
  · unfold csvDicts
    rw [List.map_map, List.forall₂_map_right_iff, List.forall₂_same]
    intro file hfile
    refine ⟨List.length_map _, fun key val => ?_⟩
    rw [Function.comp_apply, mem_zip_csvRow]
    constructor
    · intro hlookup
      refine ⟨⟨mem_csvKeys.mpr ⟨_, List.mem_map_of_mem hfile, val, hlookup⟩, ?_⟩,
        (mem_of_lookup_input2dict hlookup).2⟩
      rw [hlookup]
      rfl
    · rintro ⟨⟨-, hval⟩, hne⟩
      cases hlookup : (input2dict false file).1.lookup key with
      | none =>
          rw [hlookup] at hval
          exact absurd hval hne
      | some other =>
          rw [hlookup] at hval
          rw [hval]
          rfl

/-- Two files, one with a quotation mark in a value, the other without that key. -/
def quotedFiles : List Text :=
  ["10   Real cycles\nArguments   : say \"go, go\"\n".toList, "7   Real cycles\n".toList]

/-- Two files, one of them with a quotation mark and without the other's keys. -/
theorem csv_table_recovers_quoted : ∃ keys first second,
    CsvTable.read (dictlist2csv (csvDicts quotedFiles)) = .ok [keys, first, second] ∧
      ("Real cycles".toList, "10".toList) ∈ keys.zip first ∧
      ("Arguments".toList, "say \"go_ go\"".toList) ∈ keys.zip first ∧
      ("Real cycles".toList, "7".toList) ∈ keys.zip second := by
  obtain ⟨keys, rows, hread, -, -, hrows⟩ := csv_table_recovers quotedFiles (by decide)
  obtain ⟨first, rest, ⟨-, hfirst⟩, hrest, rfl⟩ := List.forall₂_cons_left_iff.mp hrows
  obtain ⟨second, last, ⟨-, hsecond⟩, hlast, rfl⟩ := List.forall₂_cons_left_iff.mp hrest
  cases hlast
  exact ⟨keys, first, second, hread, ((hfirst _ _).mp (by decide)).1,
    ((hfirst _ _).mp (by decide)).1, ((hsecond _ _).mp (by decide)).1⟩

end Papiex
