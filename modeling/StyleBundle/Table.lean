/-!
# Ordered tables

A table keeps its entries in the order in which their keys first came. Putting a key again
changes its value and keeps its place, which is what macro tables, settings and source maps do.
-/

namespace StyleBundle

/-- The entries of a table, in order. -/
abbrev Table (κ υ : Type) := List (κ × υ)

namespace Table

variable {κ υ : Type} [DecidableEq κ]

/-- The value of a key. -/
def get? (key : κ) : Table κ υ → Option υ
  | [] => none
  | (k, v) :: rest => if k = key then some v else get? key rest

@[simp] theorem get?_nil (key : κ) : get? key ([] : Table κ υ) = none := rfl

theorem get?_cons (key k : κ) (v : υ) (rest : Table κ υ) :
    get? key ((k, v) :: rest) = if k = key then some v else get? key rest := rfl

/-- The table with the key's value set, in the place of the key or else at the end. -/
def put (key : κ) (value : υ) : Table κ υ → Table κ υ
  | [] => [(key, value)]
  | (k, v) :: rest => if k = key then (k, value) :: rest else (k, v) :: put key value rest

@[simp] theorem put_nil (key : κ) (value : υ) : put key value [] = [(key, value)] := rfl

theorem put_cons (key k : κ) (value v : υ) (rest : Table κ υ) : put key value ((k, v) :: rest) =
    if k = key then (k, value) :: rest else (k, v) :: put key value rest := rfl

/-- The table without the key. -/
def erase (key : κ) (t : Table κ υ) : Table κ υ := t.filter (·.1 ≠ key)

/-- The keys, in order. -/
def keys (t : Table κ υ) : List κ := t.map Prod.fst

/-- The table with the entries of another put on top, in that other's order. -/
def update (t more : Table κ υ) : Table κ υ := more.foldl (fun t (k, v) => put k v t) t

/-- The table of a row of entries, in which a key may come more than once. -/
def ofList (entries : List (κ × υ)) : Table κ υ := update [] entries

@[simp] theorem get?_put_self (key : κ) (value : υ) (t : Table κ υ) :
    get? key (put key value t) = some value := by
  induction t with
  | nil => simp [get?_cons]
  | cons entry rest ih =>
    obtain ⟨k, v⟩ := entry
    by_cases h : k = key <;> simp [put_cons, get?_cons, h, ih]

theorem get?_put_of_ne {key other : κ} (value : υ) (t : Table κ υ) (h : key ≠ other) :
    get? other (put key value t) = get? other t := by
  induction t with
  | nil => simp [get?_cons, h]
  | cons entry rest ih =>
    obtain ⟨k, v⟩ := entry
    by_cases hk : k = key
    · simp [put_cons, get?_cons, hk, h]
    · by_cases ho : k = other
      · subst ho
        simp [put_cons, get?_cons, hk]
      · simp [put_cons, get?_cons, hk, ho, ih]

/-- A value that is found stands in the table. -/
theorem mem_of_get? {key : κ} {value : υ} {t : Table κ υ} (h : get? key t = some value) :
    (key, value) ∈ t := by
  induction t with
  | nil => simp at h
  | cons entry rest ih =>
    obtain ⟨k, v⟩ := entry
    by_cases hk : k = key
    · simp_all [get?_cons]
    · exact List.mem_cons_of_mem _ (ih (by simpa [get?_cons, hk] using h))

/-- Leaving out keys does not change the values of the others. -/
theorem get?_filter (keep : κ → Bool) (key : κ) (t : Table κ υ) :
    get? key (t.filter fun entry => keep entry.1) = if keep key then get? key t else none := by
  induction t with
  | nil => simp
  | cons entry rest ih =>
    obtain ⟨k, v⟩ := entry
    by_cases hk : k = key
    · subst hk
      by_cases hkeep : keep k <;> simp_all [get?_cons]
    · by_cases hkeep : keep k <;> simp_all [get?_cons]

/-- A value that is found after an update was put or was there before. -/
theorem mem_or_get?_of_update {key : κ} {value : υ} {t more : Table κ υ}
    (h : get? key (update t more) = some value) :
    (key, value) ∈ more ∨ get? key t = some value := by
  induction more generalizing t with
  | nil => exact .inr h
  | cons entry rest ih =>
    obtain ⟨k, v⟩ := entry
    rcases ih h with hrest | hput
    · exact .inl (List.mem_cons_of_mem _ hrest)
    · by_cases hk : k = key
      · subst hk
        rw [get?_put_self, Option.some.injEq] at hput
        exact .inl (hput ▸ List.mem_cons_self ..)
      · rw [get?_put_of_ne v t hk] at hput
        exact .inr hput

/-- Putting never moves a key: the keys stay, and a new one comes last. -/
theorem keys_put (key : κ) (value : υ) (t : Table κ υ) :
    keys (put key value t) = if key ∈ keys t then keys t else keys t ++ [key] := by
  induction t with
  | nil => simp [keys]
  | cons entry rest ih =>
    obtain ⟨k, v⟩ := entry
    by_cases h : k = key
    · simp [put_cons, keys, h]
    · have h' : ¬ key = k := fun e => h e.symm
      simp only [keys] at ih
      by_cases hm : key ∈ List.map Prod.fst rest <;> simp [put_cons, keys, h, h', ih, hm]

/-- A new key comes last. -/
theorem put_of_not_mem_keys {key : κ} (value : υ) {t : Table κ υ} (h : key ∉ keys t) :
    put key value t = t ++ [(key, value)] := by
  induction t with
  | nil => rfl
  | cons entry rest ih =>
    obtain ⟨k, v⟩ := entry
    have hk : k ≠ key := fun e => h (e ▸ List.mem_cons_self ..)
    rw [put_cons, if_neg hk, ih fun hrest => h (List.mem_cons_of_mem _ hrest), List.cons_append]

/-- Putting the value that a key has changes nothing. -/
theorem put_of_get? {key : κ} {value : υ} {t : Table κ υ} (h : get? key t = some value) :
    put key value t = t := by
  induction t with
  | nil => cases h
  | cons entry rest ih =>
    obtain ⟨k, v⟩ := entry
    rw [get?_cons] at h
    by_cases hk : k = key
    · rw [if_pos hk, Option.some.injEq] at h
      rw [put_cons, if_pos hk, h]
    · rw [if_neg hk] at h
      rw [put_cons, if_neg hk, ih h]

/-- What stands in a table after putting was put or stood there before. -/
theorem mem_of_mem_put {key : κ} {value : υ} {entry : κ × υ} {t : Table κ υ}
    (h : entry ∈ put key value t) : entry = (key, value) ∨ entry ∈ t := by
  induction t with
  | nil => exact .inl (List.mem_singleton.1 h)
  | cons first rest ih =>
    obtain ⟨k, v⟩ := first
    rw [put_cons] at h
    split at h
    next hk =>
      obtain rfl | hrest := List.mem_cons.1 h
      · exact .inl (hk ▸ rfl)
      · exact .inr (List.mem_cons_of_mem _ hrest)
    next =>
      obtain rfl | hrest := List.mem_cons.1 h
      · exact .inr (List.mem_cons_self ..)
      · exact (ih hrest).imp_right (List.mem_cons_of_mem _)

/-- A table keeps each key once when one is put. -/
theorem nodup_keys_put (key : κ) (value : υ) {t : Table κ υ} (h : (keys t).Nodup) :
    (keys (put key value t)).Nodup := by
  rw [keys_put]
  split
  · exact h
  · next hnew =>
    refine List.nodup_append.2 ⟨h, List.nodup_cons.2 ⟨List.not_mem_nil, List.nodup_nil⟩,
      fun k hk other hother => ?_⟩
    rintro rfl
    exact hnew (List.mem_singleton.1 hother ▸ hk)

/-- The table of a row of entries holds each key once. -/
theorem nodup_keys_ofList (entries : List (κ × υ)) : (keys (ofList entries)).Nodup := by
  have hupdate (more : List (κ × υ)) {t : Table κ υ} (h : (keys t).Nodup) :
      (keys (update t more)).Nodup := by
    induction more generalizing t with
    | nil => exact h
    | cons entry rest ih => exact ih (nodup_keys_put entry.1 entry.2 h)
  exact hupdate entries List.nodup_nil

/-- The table of a row of entries holds nothing else. -/
theorem mem_of_mem_ofList {entry : κ × υ} {entries : List (κ × υ)} (h : entry ∈ ofList entries) :
    entry ∈ entries := by
  have hupdate (more : List (κ × υ)) {t : Table κ υ} (h : entry ∈ update t more) :
      entry ∈ t ∨ entry ∈ more := by
    induction more generalizing t with
    | nil => exact .inl h
    | cons first rest ih =>
      rcases ih h with hput | hrest
      · rcases mem_of_mem_put hput with rfl | hold
        · exact .inr (List.mem_cons_self ..)
        · exact .inl hold
      · exact .inr (List.mem_cons_of_mem _ hrest)
  exact (hupdate entries h).resolve_left List.not_mem_nil

/-- A row of entries with distinct keys is its own table. -/
theorem ofList_of_nodup {entries : List (κ × υ)} (h : (keys entries).Nodup) :
    ofList entries = entries := by
  have hupdate (more : List (κ × υ)) {t : Table κ υ} (h : (keys (t ++ more)).Nodup) :
      update t more = t ++ more := by
    induction more generalizing t with
    | nil => exact (List.append_nil t).symm
    | cons entry rest ih =>
      obtain ⟨k, v⟩ := entry
      have hnew : k ∉ keys t := by
        intro hk
        rw [keys, List.map_append, List.map_cons, List.nodup_append] at h
        exact h.2.2 k hk k (List.mem_cons_self ..) rfl
      have hput : t ++ (k, v) :: rest = put k v t ++ rest := by
        rw [put_of_not_mem_keys v hnew, List.append_assoc, List.singleton_append]
      rw [hput] at h ⊢
      exact ih h
  exact hupdate entries h

end Table

end StyleBundle
