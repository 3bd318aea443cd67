/-!
# Keyed lists

A keyed list maps keys to values and remembers the order in which the keys arrived: writing to a
key that is there changes its value in place, a new key goes to the end. `get?` reads it, and the
lemmas say what each operation does to every later reading.
-/

namespace CallFill

/-- Values by key, in the order in which the keys arrived. -/
abbrev KeyedList (κ β : Type) := List (κ × β)

namespace KeyedList

variable {κ β : Type} [DecidableEq κ]

/-- The value at a key. -/
def get? : KeyedList κ β → κ → Option β
  | [], _ => none
  | (k, v) :: t, key => if k = key then some v else get? t key

/-- Whether the key is there. -/
def has (t : KeyedList κ β) (key : κ) : Bool :=
  (get? t key).isSome

/-- Writes a value: in place at a key that is there, at the end otherwise. -/
def put : KeyedList κ β → κ → β → KeyedList κ β
  | [], key, value => [(key, value)]
  | (k, v) :: t, key, value => if k = key then (k, value) :: t else (k, v) :: put t key value

/-- Writes a value unless the key is there already. -/
def putNew (t : KeyedList κ β) (key : κ) (value : β) : KeyedList κ β :=
  if has t key then t else t ++ [(key, value)]

/-- The list without the key. -/
def drop (t : KeyedList κ β) (key : κ) : KeyedList κ β :=
  t.filter fun entry => entry.1 ≠ key

/-- Writes the entries of another keyed list, in its order. -/
def putAll (t entries : KeyedList κ β) : KeyedList κ β :=
  entries.foldl (fun t entry => put t entry.1 entry.2) t

/-- The keys in order. -/
def keys (t : KeyedList κ β) : List κ :=
  t.map Prod.fst

@[simp] theorem get?_nil (key : κ) : get? ([] : KeyedList κ β) key = none := rfl

/-- A key has the value that was put there last, and the other keys have theirs. -/
theorem get?_put (t : KeyedList κ β) (key other : κ) (value : β) :
    get? (put t key value) other = if key = other then some value else get? t other := by
  induction t with
  | nil => simp [put, get?]
  | cons e t ih =>
    obtain ⟨k, v⟩ := e
    by_cases hk : k = key
    · subst hk
      by_cases ho : k = other <;> simp [put, get?, ho]
    · by_cases ho : k = other
      · subst ho
        simp [put, get?, hk, Ne.symm hk]
      · simp [put, get?, hk, ho, ih]

omit [DecidableEq κ] in
/-- A key that fails a test is not the one of an entry found by it. -/
theorem ne_of_find? {t : KeyedList κ β} {test : κ → Bool} {key : κ} {found : κ × β}
    (hfind : t.find? (fun entry => test entry.1) = some found) (htest : test key = false) :
    found.1 ≠ key := by
  rintro rfl
  have hfound := List.find?_some hfind
  rw [htest] at hfound
  exact nomatch hfound

/-- The first entry whose key passes a test, after a write. -/
theorem find?_put (t : KeyedList κ β) (key : κ) (value : β) (test : κ → Bool) :
    (put t key value).find? (fun entry => test entry.1) =
      match t.find? fun entry => test entry.1 with
      | some entry => some (if entry.1 = key then (key, value) else entry)
      | none => if test key then some (key, value) else none := by
  induction t with
  | nil =>
      rw [put, List.find?_cons]
      cases htest : test key <;> rfl
  | cons e t ih =>
      obtain ⟨k, v⟩ := e
      rw [put]
      by_cases hk : k = key
      · subst hk
        rw [if_pos rfl, List.find?_cons, List.find?_cons]
        cases htest : test k with
        | true =>
            dsimp only
            rw [if_pos rfl]
        | false =>
            dsimp only
            cases hfind : t.find? fun entry => test entry.1 with
            | none => rfl
            | some found =>
                dsimp only
                rw [if_neg (ne_of_find? hfind htest)]
      · rw [if_neg hk, List.find?_cons, List.find?_cons, ih]
        cases htest : test k with
        | true =>
            dsimp only
            rw [if_neg hk]
        | false => rfl

/-- The keys after a write: as before, with a new key at the end. -/
theorem keys_put (t : KeyedList κ β) (key : κ) (value : β) :
    keys (put t key value) = if has t key then keys t else keys t ++ [key] := by
  induction t with
  | nil => simp [put, keys, has, get?]
  | cons e t ih =>
    obtain ⟨k, v⟩ := e
    by_cases hk : k = key
    · simp [put, keys, has, get?, hk]
    · have hrest : has ((k, v) :: t) key = has t key := by simp [has, get?, hk]
      rw [hrest]
      simp only [put, if_neg hk]
      show k :: keys (put t key value) = _
      rw [ih]
      cases has t key <;> rfl

variable {t : KeyedList κ β} {key : κ} {value : β}

/-- What a table has is what is among its keys. -/
theorem has_iff_mem_keys : has t key = true ↔ key ∈ keys t := by
  induction t with
  | nil => exact ⟨fun h => absurd h Bool.false_ne_true, fun h => absurd h List.not_mem_nil⟩
  | cons e t ih =>
      obtain ⟨k, v⟩ := e
      rw [has, get?]
      show _ ↔ key ∈ k :: keys t
      by_cases hk : k = key
      · rw [if_pos hk, hk]
        exact ⟨fun _ => List.mem_cons_self, fun _ => rfl⟩
      · rw [if_neg hk, List.mem_cons]
        constructor
        · exact fun h => Or.inr (ih.1 h)
        · rintro (rfl | h)
          · exact absurd rfl hk
          · exact ih.2 h

/-- Putting a value adds its key, if it was not there. -/
theorem mem_keys_put {other : κ} :
    other ∈ keys (put t key value) ↔ other ∈ keys t ∨ other = key := by
  rw [keys_put]
  by_cases hhas : has t key = true
  · rw [if_pos hhas]
    constructor
    · exact Or.inl
    · rintro (h | rfl)
      · exact h
      · exact has_iff_mem_keys.1 hhas
  · rw [if_neg hhas, List.mem_append, List.mem_singleton]

/-- Putting entries adds their keys. -/
theorem mem_keys_putAll {entries : KeyedList κ β} :
    key ∈ keys (putAll t entries) ↔ key ∈ keys t ∨ key ∈ keys entries := by
  induction entries generalizing t with
  | nil => exact ⟨Or.inl, fun h => h.resolve_right List.not_mem_nil⟩
  | cons e entries ih =>
      show key ∈ keys (putAll (put t e.1 e.2) entries) ↔ key ∈ keys t ∨ key ∈ e.1 :: keys entries
      rw [ih, mem_keys_put, List.mem_cons, or_assoc]

/-- Writing never makes a key occur twice. -/
theorem nodup_put (h : (keys t).Nodup) (key : κ) (value : β) : (keys (put t key value)).Nodup := by
  rw [keys_put]
  cases hhas : has t key with
  | true => exact h
  | false =>
      show (keys t ++ [key]).Nodup
      refine List.nodup_append.2 ⟨h, List.pairwise_singleton _ key, ?_⟩
      intro a ha b hb hab
      rw [List.mem_singleton.1 hb] at hab
      rw [hab, ← has_iff_mem_keys, hhas] at ha
      exact absurd ha (by decide)

/-- Putting entries leaves every key there once. -/
theorem nodup_putAll (h : (keys t).Nodup) (entries : KeyedList κ β) :
    (keys (putAll t entries)).Nodup := by
  induction entries generalizing t with
  | nil => exact h
  | cons e entries ih => exact ih (nodup_put h e.1 e.2)

/-- An entry is found by its key where no key occurs twice. -/
theorem get?_of_mem (h : (keys t).Nodup) (hmem : (key, value) ∈ t) : get? t key = some value := by
  induction t with
  | nil => exact absurd hmem List.not_mem_nil
  | cons e t ih =>
      obtain ⟨k, v⟩ := e
      obtain ⟨hfirst, hrest⟩ := List.nodup_cons.1 h
      rw [get?]
      rcases List.mem_cons.1 hmem with heq | hmem
      · obtain ⟨rfl, rfl⟩ := Prod.mk.inj heq
        rw [if_pos rfl]
      · have hne : k ≠ key := by
          rintro rfl
          exact hfirst (List.mem_map.2 ⟨(k, value), hmem, rfl⟩)
        rw [if_neg hne]
        exact ih hrest hmem

/-- Writing to keys that are there leaves the keys as they are. -/
theorem keys_putAll_of_mem {entries : KeyedList κ β} (h : ∀ e ∈ entries, e.1 ∈ keys t) :
    keys (putAll t entries) = keys t := by
  induction entries generalizing t with
  | nil => rfl
  | cons e entries ih =>
      have hkeys : keys (put t e.1 e.2) = keys t := by
        rw [keys_put, if_pos (has_iff_mem_keys.2 (h e List.mem_cons_self))]
      show keys (putAll (put t e.1 e.2) entries) = keys t
      rw [ih fun e' he' => hkeys ▸ h e' (List.mem_cons_of_mem _ he'), hkeys]

/-- Entries with other keys leave a value as it was. -/
theorem get?_putAll_of_not_mem {entries : KeyedList κ β} (h : key ∉ keys entries) :
    get? (putAll t entries) key = get? t key := by
  induction entries generalizing t with
  | nil => rfl
  | cons e entries ih =>
      have hfirst : key ≠ e.1 := List.ne_of_not_mem_cons h
      show get? (putAll (put t e.1 e.2) entries) key = get? t key
      rw [ih (List.not_mem_of_not_mem_cons h), get?_put, if_neg (Ne.symm hfirst)]

/-- What is read after writing entries was there before or is one of the entries. -/
theorem get?_putAll {entries : KeyedList κ β} (h : get? (putAll t entries) key = some value) :
    get? t key = some value ∨ (key, value) ∈ entries := by
  induction entries generalizing t with
  | nil => exact Or.inl h
  | cons e entries ih =>
      rcases ih h with hput | hmem
      · rw [get?_put] at hput
        by_cases hkey : e.1 = key
        · rw [if_pos hkey] at hput
          rw [← hkey, ← Option.some.inj hput]
          exact Or.inr List.mem_cons_self
        · rw [if_neg hkey] at hput
          exact Or.inl hput
      · exact Or.inr (List.mem_cons_of_mem _ hmem)

/-- What is read after writing entries, of which no two have one key, is the entry of the key if
there is one. -/
theorem get?_putAll_of_nodup {entries : KeyedList κ β} (h : (keys entries).Nodup)
    (t : KeyedList κ β) (key : κ) :
    get? (putAll t entries) key = (get? entries key).or (get? t key) := by
  induction entries generalizing t with
  | nil => rfl
  | cons e entries ih =>
      obtain ⟨hfirst, hrest⟩ := List.nodup_cons.1 h
      show get? (putAll (put t e.1 e.2) entries) key = _
      rw [ih hrest, get?_put, get?]
      by_cases hkey : e.1 = key
      · have hnone : get? entries key = none := by
          cases hentry : get? entries key with
          | none => rfl
          | some value =>
              have hhas : has entries key = true := by rw [has, hentry]; rfl
              exact absurd (has_iff_mem_keys.1 hhas) (hkey ▸ hfirst)
        rw [if_pos hkey, if_pos hkey, hnone]
        rfl
      · rw [if_neg hkey, if_neg hkey]

/-- A value that is found is an entry of the table. -/
theorem mem_of_get? (h : get? t key = some value) : (key, value) ∈ t := by
  induction t with
  | nil => exact nomatch h
  | cons e t ih =>
      obtain ⟨k, v⟩ := e
      rw [get?] at h
      by_cases hk : k = key
      · rw [if_pos hk] at h
        rw [← hk, ← Option.some.inj h]
        exact List.mem_cons_self
      · rw [if_neg hk] at h
        exact List.mem_cons_of_mem _ (ih h)

/-- Nothing is found exactly where there is no key. -/
theorem get?_eq_none_iff : get? t key = none ↔ key ∉ keys t := by
  rw [← has_iff_mem_keys, has, Option.not_isSome_iff_eq_none]

/-- A key that is dropped has no value, and the other keys have theirs. -/
theorem get?_drop (t : KeyedList κ β) (key other : κ) :
    get? (drop t key) other = if key = other then none else get? t other := by
  induction t with
  | nil => rw [drop, List.filter_nil, get?_nil, ite_self]
  | cons e t ih =>
      obtain ⟨k, v⟩ := e
      rw [drop, List.filter_cons]
      change get? (if _ then (k, v) :: drop t key else drop t key) other = _
      by_cases hk : k = key
      · rw [if_neg (by simpa using hk), ih, get?, hk]
        by_cases ho : key = other
        · rw [if_pos ho, if_pos ho]
        · rw [if_neg ho, if_neg ho, if_neg ho]
      · rw [if_pos (by simpa using hk), get?, ih, get?]
        by_cases ho : key = other
        · rw [if_pos ho, if_neg (ho ▸ hk), if_pos ho]
        · rw [if_neg ho, if_neg ho]

/-- Dropping a key that is not there changes nothing. -/
theorem drop_of_not_mem (h : key ∉ keys t) : drop t key = t := by
  refine List.filter_eq_self.2 fun e he => decide_eq_true ?_
  rintro rfl
  exact h (List.mem_map_of_mem he)

theorem nodup_drop (h : (keys t).Nodup) (key : κ) : (keys (drop t key)).Nodup :=
  (List.filter_sublist.map Prod.fst).nodup h

/-- A write adds no entry but its own. -/
theorem mem_put {entry : κ × β} (h : entry ∈ put t key value) :
    entry ∈ t ∨ entry = (key, value) := by
  induction t with
  | nil => exact Or.inr (List.mem_singleton.1 h)
  | cons e t ih =>
      rw [put] at h
      split at h
      · next hkey =>
          rcases List.mem_cons.1 h with rfl | h
          · exact Or.inr (congrArg (·, value) hkey)
          · exact Or.inl (List.mem_cons_of_mem e h)
      · rcases List.mem_cons.1 h with rfl | h
        · exact Or.inl List.mem_cons_self
        · exact (ih h).imp_left (List.mem_cons_of_mem e)

/-- Writing entries adds no others. -/
theorem mem_putAll {entries : KeyedList κ β} {entry : κ × β} (h : entry ∈ putAll t entries) :
    entry ∈ t ∨ entry ∈ entries := by
  induction entries generalizing t with
  | nil => exact Or.inl h
  | cons first rest ih =>
      rcases ih h with h | h
      · rcases mem_put h with h | rfl
        · exact Or.inl h
        · exact Or.inr List.mem_cons_self
      · exact Or.inr (List.mem_cons_of_mem first h)

/-- The values are what the keys read where no key occurs twice. -/
theorem mem_values_iff (h : (keys t).Nodup) :
    value ∈ t.map Prod.snd ↔ ∃ key, get? t key = some value := by
  constructor
  · intro hvalue
    obtain ⟨⟨key, value⟩, hentry, rfl⟩ := List.mem_map.1 hvalue
    exact ⟨key, get?_of_mem h hentry⟩
  · rintro ⟨key, hget⟩
    exact List.mem_map_of_mem (mem_of_get? hget)

/-- A new key goes to the end. -/
theorem put_of_not_has (h : has t key = false) (value : β) :
    put t key value = t ++ [(key, value)] := by
  induction t with
  | nil => rfl
  | cons e t ih =>
      obtain ⟨k, v⟩ := e
      have hne : k ≠ key := by
        rintro rfl
        rw [has, get?, if_pos rfl] at h
        exact nomatch h
      rw [has, get?, if_neg hne] at h
      rw [put, if_neg hne, ih h]
      rfl

end KeyedList

end CallFill
