import Mathlib.Data.List.Dedup
import Mathlib.Data.List.DropRight
import Mathlib.Data.List.Induction

/-!
# Maps in insertion order

A `Map` of JavaScript remembers the order in which its keys came: a new key comes last, a new value
for an old key leaves its place. Deleting a key and setting it again therefore moves it to the end,
so a map of the values that were asked for last can be kept by its order alone. `recent n h` is the
list of the `n` keys that a history `h` of requests asked for last, each at its last request;
`keys_request` says that a map which moves the requested keys to the end, and drops its first key
when it has more than `n`, has exactly these keys in this order.
-/

/-- The entries of a `Map`, in their order. -/
structure InsertionMap (κ ν : Type) where
  entries : List (κ × ν)
  nodup : (entries.map (·.1)).Nodup

namespace InsertionMap

variable {κ ν : Type}

/-- `map.keys()` -/
def keys (m : InsertionMap κ ν) : List κ := m.entries.map (·.1)

/-- `map.values()` -/
def values (m : InsertionMap κ ν) : List ν := m.entries.map (·.2)

/-- `map.size` -/
def size (m : InsertionMap κ ν) : ℕ := m.entries.length

/-- `new Map()` -/
def empty : InsertionMap κ ν := ⟨[], List.nodup_nil⟩

/-- What stands before the last `n` keys does not matter. -/
theorem rtake_append {l l' : List κ} {n : ℕ} (h : l = [] ∨ n ≤ l'.length) :
    (l ++ l').rtake n = l'.rtake n := by
  rcases h with rfl | h
  · rfl
  · unfold List.rtake
    have hdrop : (l ++ l').length - n = l.length + (l'.length - n) := by
      rw [List.length_append]
      omega
    rw [hdrop, ← List.drop_drop, List.drop_left]

/-- Few keys are the last ones. -/
theorem rtake_of_length_le {l : List κ} {n : ℕ} (h : l.length ≤ n) : l.rtake n = l := by
  rw [List.rtake, Nat.sub_eq_zero_of_le h, List.drop_zero]

/-- Lists with the same images are the same when the function keeps their keys apart. -/
theorem eq_of_map_eq {κ' : Type} {f : κ → κ'} {l l' : List κ} (h : l.map f = l'.map f)
    (hf : ∀ k ∈ l, ∀ k' ∈ l', f k = f k' → k = k') : l = l' := by
  induction l generalizing l' with
  | nil => exact (List.map_eq_nil_iff.mp h.symm).symm
  | cons k l ih =>
    obtain ⟨k', l'', rfl, hk, hl⟩ := List.map_eq_cons_iff.mp h.symm
    rw [hf k (.head _) k' (.head _) hk.symm,
      ih hl.symm fun x hx y hy => hf x (.tail _ hx) y (.tail _ hy)]

variable [DecidableEq κ]

/-- `map.get(key)` -/
def get? (m : InsertionMap κ ν) (key : κ) : Option ν :=
  (m.entries.find? fun e => e.1 = key).map (·.2)

/-- `map.delete(key)` -/
def delete (m : InsertionMap κ ν) (key : κ) : InsertionMap κ ν where
  entries := m.entries.filter fun e => e.1 ≠ key
  nodup := m.nodup.sublist (List.filter_sublist.map _)

/-- The entries after `map.set(key, value)`. -/
def setEntries (entries : List (κ × ν)) (key : κ) (value : ν) : List (κ × ν) :=
  if key ∈ entries.map (·.1) then entries.map fun e => if e.1 = key then (key, value) else e
  else entries ++ [(key, value)]

/-- A value leaves the keys as they are, or adds its own. -/
theorem keys_setEntries (entries : List (κ × ν)) (key : κ) (value : ν) :
    (setEntries entries key value).map (·.1) =
      if key ∈ entries.map (·.1) then entries.map (·.1) else entries.map (·.1) ++ [key] := by
  unfold setEntries
  split
  · rw [List.map_map]
    refine List.map_congr_left fun e _ => ?_
    by_cases he : e.1 = key
    · rw [Function.comp_apply, if_pos he, he]
    · rw [Function.comp_apply, if_neg he]
  · rw [List.map_append, List.map_singleton]

/-- `map.set(key, value)` -/
def set (m : InsertionMap κ ν) (key : κ) (value : ν) : InsertionMap κ ν where
  entries := setEntries m.entries key value
  nodup := by
    rw [keys_setEntries]
    split
    · exact m.nodup
    · rename_i hkey
      exact List.nodup_append_comm.mpr (List.nodup_cons.mpr ⟨hkey, m.nodup⟩)

/-! ## Lookups -/

/-- A lookup finds the entry of the key. -/
theorem get?_eq_some_iff {m : InsertionMap κ ν} {key : κ} {value : ν} :
    m.get? key = some value ↔ (key, value) ∈ m.entries := by
  unfold get?
  rw [Option.map_eq_some_iff]
  constructor
  · rintro ⟨⟨k, v⟩, hfind, rfl⟩
    obtain rfl : k = key := by simpa using List.find?_some hfind
    exact List.mem_of_find?_eq_some hfind
  · intro hmem
    cases hfind : m.entries.find? fun e => e.1 = key with
    | none =>
      have hne := List.find?_eq_none.mp hfind _ hmem
      simp at hne
    | some e =>
      have he : e.1 = key := by simpa using List.find?_some hfind
      refine ⟨e, rfl, ?_⟩
      rw [List.inj_on_of_nodup_map m.nodup (List.mem_of_find?_eq_some hfind) hmem he]

/-- A lookup of a key that is not there finds nothing. -/
theorem get?_eq_none_iff {m : InsertionMap κ ν} {key : κ} :
    m.get? key = none ↔ key ∉ m.keys := by
  rw [get?, Option.map_eq_none_iff, List.find?_eq_none, keys, List.mem_map]
  constructor
  · rintro h ⟨e, he, rfl⟩
    exact h e he (decide_eq_true rfl)
  · intro h e he hkey
    exact h ⟨e, he, of_decide_eq_true hkey⟩

/-- Keys of a deletion. -/
theorem keys_delete (m : InsertionMap κ ν) (key : κ) :
    (m.delete key).keys = m.keys.filter (· ≠ key) := by
  rw [keys, keys, delete, List.filter_map]
  rfl

/-- A deleted key that is set again comes last. -/
theorem entries_set_delete (m : InsertionMap κ ν) (key : κ) (value : ν) :
    ((m.delete key).set key value).entries = (m.delete key).entries ++ [(key, value)] := by
  have hkey : key ∉ (m.delete key).entries.map (·.1) := by
    change key ∉ (m.delete key).keys
    rw [keys_delete]
    simp
  exact if_neg hkey

/-- A new key comes last. -/
theorem entries_set {m : InsertionMap κ ν} {key : κ} (h : key ∉ m.keys) (value : ν) :
    (m.set key value).entries = m.entries ++ [(key, value)] :=
  if_neg h

/-- The first entry goes when its key is deleted. -/
theorem entries_delete_head {m : InsertionMap κ ν} {e : κ × ν} {rest : List (κ × ν)}
    (h : m.entries = e :: rest) : (m.delete e.1).entries = rest := by
  have hnodup := m.nodup
  rw [h, List.map_cons, List.nodup_cons] at hnodup
  have hentries : (m.delete e.1).entries = m.entries.filter fun e' => e'.1 ≠ e.1 := rfl
  rw [hentries, h, List.filter_cons_of_neg (by simp)]
  refine List.filter_eq_self.mpr fun e' he' => decide_eq_true fun heq => ?_
  exact hnodup.1 (heq ▸ List.mem_map_of_mem he')

/-! ## The keys that were requested last -/

/-- The `n` keys that were requested last, each at its last request. -/
def recent (n : ℕ) (history : List κ) : List κ := history.dedup.rtake n

/-- How many requests came since the last one of a key. -/
def age (history : List κ) (key : κ) : ℕ := history.reverse.idxOf key

/-- A request moves its key to the end of the keys. -/
theorem dedup_concat (history : List κ) (key : κ) :
    (history ++ [key]).dedup = history.dedup.filter (· ≠ key) ++ [key] := by
  induction history with
  | nil => rfl
  | cons k history ih =>
    rw [List.cons_append]
    by_cases hmem : k ∈ history
    · rw [List.dedup_cons_of_mem (List.mem_append_left _ hmem), List.dedup_cons_of_mem hmem, ih]
    · by_cases hkey : k = key
      · subst hkey
        rw [List.dedup_cons_of_mem (List.mem_append_right _ (List.mem_singleton_self _)),
          List.dedup_cons_of_notMem hmem, List.filter_cons_of_neg (by simp), ih]
      · have hnot : k ∉ history ++ [key] := by
          simp [hmem, hkey]
        rw [List.dedup_cons_of_notMem hnot, List.dedup_cons_of_notMem hmem, ih,
          List.filter_cons_of_pos (by simpa using hkey), List.cons_append]

/-- The last keys are keys of the history, and none comes twice. -/
theorem recent_suffix (n : ℕ) (history : List κ) : recent n history <:+ history.dedup :=
  List.drop_suffix _ _

/-- The last keys were asked for. -/
theorem recent_subset {n : ℕ} {history : List κ} : recent n history ⊆ history :=
  List.Subset.trans (recent_suffix n history).subset (List.dedup_subset history)

/-- No key comes twice. -/
theorem nodup_recent (n : ℕ) (history : List κ) : (recent n history).Nodup :=
  (List.nodup_dedup history).sublist (recent_suffix n history).sublist

/-- There are `n` keys at most. -/
theorem length_recent_le (n : ℕ) (history : List κ) : (recent n history).length ≤ n := by
  rw [recent, List.rtake_eq_reverse_take_reverse, List.length_reverse]
  exact List.length_take_le _ _

/-- The keys before the last `n` ones: there are none unless `n` keys follow. -/
theorem exists_before_recent (n : ℕ) (history : List κ) :
    ∃ before, history.dedup = before ++ recent n history ∧
      (before = [] ∨ (recent n history).length = n) := by
  refine ⟨history.dedup.rdrop n, ?_, ?_⟩
  · exact (List.take_append_drop _ _).symm
  · unfold recent List.rdrop List.rtake
    rcases Nat.le_total history.dedup.length n with h | h
    · left
      rw [Nat.sub_eq_zero_of_le h, List.take_zero]
    · right
      rw [List.length_drop]
      omega

/-- A key that comes once is taken out once. -/
theorem length_filter_ne {l : List κ} (h : l.Nodup) {key : κ} (hkey : key ∈ l) :
    (l.filter (· ≠ key) ++ [key]).length = l.length := by
  have hfilter : l.filter (· ≠ key) = l.erase key := by
    rw [h.erase_eq_filter]
    refine List.filter_congr fun k _ => ?_
    by_cases hk : k = key
    · simp [hk]
    · simp [hk]
  rw [hfilter, List.length_append, List.length_singleton, List.length_erase_add_one hkey]

/-- A key that is among the last ones moves to their end. -/
theorem recent_concat_of_mem {n : ℕ} {history : List κ} {key : κ} (h : key ∈ recent n history) :
    recent n (history ++ [key]) = (recent n history).filter (· ≠ key) ++ [key] := by
  obtain ⟨before, hdedup, hbefore⟩ := exists_before_recent n history
  have hnodup := List.nodup_dedup history
  rw [hdedup, List.nodup_append] at hnodup
  have hnot : key ∉ before := fun hkey => hnodup.2.2 key hkey key h rfl
  have hfilter : before.filter (· ≠ key) = before := by
    refine List.filter_eq_self.mpr fun k hk => decide_eq_true fun heq => ?_
    exact hnot (heq ▸ hk)
  have hlength := length_filter_ne (nodup_recent n history) h
  rw [recent, dedup_concat, hdedup, List.filter_append, hfilter, List.append_assoc,
    rtake_append (hbefore.imp id fun hn => by rw [hlength, hn]),
    rtake_of_length_le (hlength.trans_le (length_recent_le n history))]

/-- Another key comes after them, and the first of them goes when there are too many. -/
theorem recent_concat_of_notMem {n : ℕ} {history : List κ} {key : κ}
    (h : key ∉ recent n history) :
    recent n (history ++ [key]) = (recent n history ++ [key]).rtake n := by
  obtain ⟨before, hdedup, hbefore⟩ := exists_before_recent n history
  have hfilter : (recent n history).filter (· ≠ key) = recent n history := by
    refine List.filter_eq_self.mpr fun k hk => decide_eq_true fun heq => ?_
    exact h (heq ▸ hk)
  rw [recent, dedup_concat, hdedup, List.filter_append, hfilter, List.append_assoc]
  refine rtake_append (hbefore.imp (fun hnil => ?_) fun hn => ?_)
  · rw [hnil, List.filter_nil]
  · rw [List.length_append, hn]
    exact Nat.le_add_right _ _

/-- The last keys stand in the order of their last requests. -/
theorem pairwise_dedup (history : List κ) :
    history.dedup.Pairwise fun k k' => age history k' < age history k := by
  -- A request makes the other keys older by one, and its own key the youngest.
  induction history using List.reverseRecOn with
  | nil => exact List.Pairwise.nil
  | append_singleton history key ih =>
    have hself : age (history ++ [key]) key = 0 := by
      simp [age]
    have hother : ∀ k, k ≠ key → age (history ++ [key]) k = age history k + 1 := by
      intro k hk
      simp [age, Ne.symm hk]
    rw [dedup_concat, List.pairwise_append]
    refine ⟨?_, List.pairwise_singleton _ _, ?_⟩
    · refine (ih.filter _).imp_of_mem fun {k k'} hk hk' hlt => ?_
      rw [hother k (of_decide_eq_true (List.mem_filter.mp hk).2),
        hother k' (of_decide_eq_true (List.mem_filter.mp hk').2)]
      omega
    · intro k hk k' hk'
      rw [List.mem_singleton.mp hk', hself, hother k (of_decide_eq_true (List.mem_filter.mp hk).2)]
      omega

/-- So do the last `n` of them. -/
theorem pairwise_recent (n : ℕ) (history : List κ) :
    (recent n history).Pairwise fun k k' => age history k' < age history k :=
  (pairwise_dedup history).sublist (recent_suffix n history).sublist

/-- Keys that a function keeps apart are recent where their images are. -/
theorem recent_map {κ' : Type} [DecidableEq κ'] {f : κ → κ'} {history : List κ} (n : ℕ)
    (hf : ∀ k ∈ history, ∀ k' ∈ history, f k = f k' → k = k') :
    recent n (history.map f) = (recent n history).map f := by
  have hdedup : (history.map f).dedup = history.dedup.map f := by
    induction history with
    | nil => rfl
    | cons k history ih =>
      have hmem : f k ∈ history.map f ↔ k ∈ history := by
        constructor
        · intro h
          obtain ⟨k', hk', heq⟩ := List.mem_map.mp h
          rwa [hf k (.head _) k' (.tail _ hk') heq.symm]
        · exact List.mem_map_of_mem
      have hrest := ih fun x hx y hy => hf x (.tail _ hx) y (.tail _ hy)
      rw [List.map_cons]
      by_cases hk : k ∈ history
      · rw [List.dedup_cons_of_mem (hmem.mpr hk), List.dedup_cons_of_mem hk, hrest]
      · rw [List.dedup_cons_of_notMem fun h => hk (hmem.mp h), List.dedup_cons_of_notMem hk, hrest,
          List.map_cons]
  rw [recent, recent, hdedup, List.rtake, List.rtake, List.length_map, List.map_drop]

/-! ## Maps of the keys that were requested last -/

/-- The map without its first entry, when it has more than `n`. -/
def evict (n : ℕ) (m : InsertionMap κ ν) : InsertionMap κ ν :=
  if n < m.size then m.keys.head?.elim m m.delete else m

/-- A request of a key with a value for it: a key that is there moves to the end with its own value;
another one comes last, and then the first one goes when there are more than `n`. -/
def request (n : ℕ) (m : InsertionMap κ ν) (key : κ) (value : ν) : InsertionMap κ ν :=
  (m.get? key).elim (evict n (m.set key value)) ((m.delete key).set key)

/-- When there is one entry too many, the first one goes. -/
theorem entries_evict_of_cons {n : ℕ} {m : InsertionMap κ ν} {e : κ × ν} {rest : List (κ × ν)}
    (h : m.entries = e :: rest) (hsize : n < m.size) : (evict n m).entries = rest := by
  have hhead : m.keys.head? = some e.1 := by
    rw [keys, h]
    rfl
  rw [evict, if_pos hsize, hhead]
  exact entries_delete_head h

/-- The last `n` keys stay. -/
theorem keys_evict {n : ℕ} {m : InsertionMap κ ν} (h : m.size ≤ n + 1) :
    (evict n m).keys = m.keys.rtake n := by
  have hkeys : m.keys.length = m.size := List.length_map _
  by_cases hsize : n < m.size
  · obtain ⟨e, rest, hentries⟩ := List.exists_cons_of_length_pos (Nat.zero_lt_of_lt hsize)
    have hlength : m.keys.length - n = 1 := by omega
    rw [keys, entries_evict_of_cons hentries hsize, List.rtake, hlength, keys, hentries]
    rfl
  · rw [evict, if_neg hsize, rtake_of_length_le (by omega)]

/-- A map that is asked for keys in this way has the keys that were requested last, in the order of
the requests. -/
theorem keys_request {n : ℕ} {m : InsertionMap κ ν} {history : List κ}
    (h : m.keys = recent n history) (key : κ) (value : ν) :
    (request n m key value).keys = recent n (history ++ [key]) := by
  unfold request
  cases hget : m.get? key with
  | some old =>
    have hmem : key ∈ m.keys := List.mem_map_of_mem (get?_eq_some_iff.mp hget)
    rw [recent_concat_of_mem (h ▸ hmem), ← h, ← keys_delete, Option.elim_some, keys,
      entries_set_delete, List.map_append]
    rfl
  | none =>
    have hnot := get?_eq_none_iff.mp hget
    have hset : (m.set key value).keys = m.keys ++ [key] := by
      rw [keys, entries_set hnot, List.map_append]
      rfl
    have hsize : (m.set key value).size ≤ n + 1 := by
      have hle := length_recent_le n history
      rw [← h] at hle
      have hlength : (m.set key value).size = (m.set key value).keys.length :=
        (List.length_map _).symm
      rw [hlength, hset, List.length_append, List.length_singleton]
      omega
    rw [recent_concat_of_notMem (h ▸ hnot), ← h, Option.elim_none, keys_evict hsize, hset]

end InsertionMap
