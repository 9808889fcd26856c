import ObjectStream.Proofs.Containers

/-!
Items that are written in batches.

Lists, dictionaries and sets are filled in batches or item by item. Whatever the pieces are, the
object takes in all items in order.
-/

namespace ObjectStream

open Encoder

variable {H ι : Type} [HostObject H]

namespace Trip

/-- What `save` writes carries every sound value. -/
def Carrier (x : Trip H) (save : Value → Encode H Unit) : Prop :=
  ∀ v st st', save v st = .ok () st' → x.Sound st.store v → x.Carries st st' [v]

variable {x : Trip H} {F : Filling H ι} {save : Value → Encode H Unit} {st st' : Encoder.State H}

/-- Values are carried together if each of them is, whatever was made before it. -/
theorem saveAll_carries_each {vs : List Value} (h : saveAll save vs st = .ok () st')
    (closed : ∀ v ∈ vs, st.store.Closed v)
    (carries : ∀ v ∈ vs, ∀ st₀ st₁, st.store.Grown st₀.store → save v st₀ = .ok () st₁ →
      x.Carries st₀ st₁ [v]) : x.Carries st st' vs := by
  induction vs generalizing st with
  | nil => cases h; exact .nil rfl rfl (.refl _)
  | cons v rest ih =>
    obtain ⟨_, st₁, first, h⟩ := bind_eq_ok h
    have here := carries v (List.mem_cons_self ..) st st₁ (.refl _) first
    have later : ∀ v ∈ rest, st.store.Closed v := fun v mem => closed v (List.mem_cons_of_mem _ mem)
    refine here.trans (ih h (fun v mem => (later v mem).grown here.sent.store) ?_) later
    exact fun v mem st₀ st₂ grown =>
      carries v (List.mem_cons_of_mem _ mem) st₀ st₂ (here.sent.store.trans grown)

theorem saveAll_carries (carrier : x.Carrier save) {vs : List Value}
    (h : saveAll save vs st = .ok () st') (sound : ∀ v ∈ vs, x.Sound st.store v) :
    x.Carries st st' vs :=
  saveAll_carries_each h (fun v mem => (sound v mem).closed) fun v mem st₀ st₁ grown run =>
    carrier v st₀ st₁ run ((sound v mem).grown grown)

theorem saveEntries_carries (carrier : x.Carrier save) {entries : List (Value × Value)}
    (h : saveEntries save entries st = .ok () st')
    (sound : ∀ v ∈ Decoder.flatten entries, x.Sound st.store v) :
    x.Carries st st' (Decoder.flatten entries) := by
  induction entries generalizing st with
  | nil => cases h; exact .nil rfl rfl (.refl _)
  | cons entry rest ih =>
    obtain ⟨key, content⟩ := entry
    obtain ⟨_, st₁, first, h⟩ := bind_eq_ok h
    obtain ⟨_, st₂, second, h⟩ := bind_eq_ok h
    have split : Decoder.flatten ((key, content) :: rest) =
        [key] ++ ([content] ++ Decoder.flatten rest) := rfl
    rw [split] at sound ⊢
    simp only [List.mem_append, List.mem_singleton] at sound
    have carries := carrier key st st₁ first (sound key (.inl rfl))
    have carries' := carrier content st₁ st₂ second
      ((sound content (.inr (.inl rfl))).grown carries.sent.store)
    have sent := carries.sent.trans carries'.sent
    have rests := ih h fun v mem => (sound v (.inr (.inr mem))).grown sent.store
    refine carries.trans (carries'.trans rests fun v mem => ?_) fun v mem => ?_
    · exact (sound v (.inr (.inr mem))).closed.grown carries.sent.store
    · simp only [List.mem_append, List.mem_singleton] at mem
      exact (sound v (.inr mem)).closed

/-! ## Pieces -/

/-- Pieces that are taken in one after the other. -/
theorem fills_forM {f : List ι → Encode H Unit}
    (piece : ∀ items st st', f items st = .ok () st' →
      (∀ v ∈ items.flatMap F.values, x.Sound st.store v) → x.Fills F st st' items)
    {pieces : List (List ι)} (h : pieces.forM f st = .ok () st')
    (sound : ∀ v ∈ pieces.flatten.flatMap F.values, x.Sound st.store v) :
    x.Fills F st st' pieces.flatten := by
  induction pieces generalizing st with
  | nil => cases h; exact .nil rfl rfl (.refl _)
  | cons items rest ih =>
    change (f items >>= fun _ => rest.forM f) st = .ok () st' at h
    obtain ⟨_, st₁, first, h⟩ := bind_eq_ok h
    rw [List.flatten_cons] at sound ⊢
    rw [List.flatMap_append] at sound
    have fills := piece items st st₁ first fun v mem => sound v (List.mem_append_left _ mem)
    have later : ∀ v ∈ rest.flatten.flatMap F.values, x.Sound st.store v :=
      fun v mem => sound v (List.mem_append_right _ mem)
    exact fills.trans (ih h fun v mem => (later v mem).grown fills.sent.store) later

theorem flatten_batches {α : Type} (items : List α) : (batches items).flatten = items := by
  induction items using batches.induct with
  | case1 items short => rw [batches, if_pos short]; simp
  | case2 items long ih =>
    rw [batches, if_neg long, List.flatten_cons, ih, List.take_append_drop]

theorem fills_batches {f : List ι → Encode H Unit}
    (piece : ∀ items st st', f items st = .ok () st' →
      (∀ v ∈ items.flatMap F.values, x.Sound st.store v) → x.Fills F st st' items)
    {items : List ι} (h : (batches items).forM f st = .ok () st')
    (sound : ∀ v ∈ items.flatMap F.values, x.Sound st.store v) : x.Fills F st st' items := by
  have all := fills_forM piece h
  rw [flatten_batches] at all
  exact all sound

/-! ## Kinds of containers -/

theorem appendItem_fills (carrier : x.Carrier save) {v : Value} {st₁ : Encoder.State H}
    (first : save v st = .ok () st₁) (take : emit .append () st₁ = .ok () st')
    (sound : x.Sound st.store v) : x.Fills listFilling st st' [v] :=
  .of_gathers (carrier v st st₁ first sound).gathers take (takes_append v)

theorem appendBatch_fills (carrier : x.Carrier save) (items : List Value) (st st' : Encoder.State H)
    (h : appendBatch save items st = .ok () st')
    (sound : ∀ v ∈ items.flatMap (listFilling (H := H)).values, x.Sound st.store v) :
    x.Fills listFilling st st' items := by
  unfold appendBatch at h
  split at h
  · cases h; exact .nil rfl rfl (.refl _)
  · next v =>
    obtain ⟨_, st₁, first, take⟩ := bind_eq_ok h
    exact appendItem_fills carrier first take (sound v (by simp [listFilling]))
  · obtain ⟨_, st₁, mark, h⟩ := bind_eq_ok h
    obtain ⟨_, st₂, saved, take⟩ := bind_eq_ok h
    have marked := emit_ok mark
    have all : items.flatMap (listFilling (H := H)).values = items := by simp [listFilling]
    rw [all] at sound
    have carries := saveAll_carries carrier saved fun v mem => by
      rw [marked.store]
      exact sound v mem
    rw [← all] at carries
    exact .of_gathers (carries.behindMark mark) take (takes_appends items)

theorem appendEach_fills (carrier : x.Carrier save) {items : List Value}
    (h : appendEach save items st = .ok () st')
    (sound : ∀ v ∈ items, x.Sound st.store v) : x.Fills listFilling st st' items := by
  induction items generalizing st with
  | nil => cases h; exact .nil rfl rfl (.refl _)
  | cons v rest ih =>
    obtain ⟨_, st₁, first, h⟩ := bind_eq_ok h
    obtain ⟨_, st₂, take, h⟩ := bind_eq_ok h
    have fills := appendItem_fills carrier first take (sound v (List.mem_cons_self ..))
    have later : ∀ v ∈ rest, x.Sound st.store v := fun v mem => sound v (List.mem_cons_of_mem _ mem)
    refine fills.trans (ih h fun v mem => (later v mem).grown fills.sent.store) ?_
    simpa [listFilling] using later

theorem appendItems_fills (carrier : x.Carrier save) {items : List Value}
    (h : appendItems x.encoder save items st = .ok () st')
    (sound : ∀ v ∈ items, x.Sound st.store v) : x.Fills listFilling st st' items := by
  unfold appendItems at h
  split at h
  · refine fills_batches (appendBatch_fills carrier) h ?_
    simpa [listFilling] using sound
  · exact appendEach_fills carrier h sound

theorem storeEntry_fills (carrier : x.Carrier save) {key content : Value}
    {st₁ st₂ : Encoder.State H} (first : save key st = .ok () st₁)
    (second : save content st₁ = .ok () st₂) (take : emit .setItem () st₂ = .ok () st')
    (sound : x.Sound st.store key) (sound' : x.Sound st.store content) :
    x.Fills (tableFilling holds_dict) st st' [(key, content)] := by
  have carries := carrier key st st₁ first sound
  have carries' := carrier content st₁ st₂ second (sound'.grown carries.sent.store)
  refine .of_gathers (Carries.gathers (carries.trans carries' ?_)) take (takes_setItem (key, content))
  simpa using sound'.closed

theorem storeBatch_fills (carrier : x.Carrier save) (entries : List (Value × Value))
    (st st' : Encoder.State H) (h : storeBatch save entries st = .ok () st')
    (sound : ∀ v ∈ Decoder.flatten entries, x.Sound st.store v) :
    x.Fills (tableFilling holds_dict) st st' entries := by
  unfold storeBatch at h
  split at h
  · cases h; exact .nil rfl rfl (.refl _)
  · next key content =>
    obtain ⟨_, st₁, first, h⟩ := bind_eq_ok h
    obtain ⟨_, st₂, second, take⟩ := bind_eq_ok h
    exact storeEntry_fills carrier first second take (sound key (by simp [Decoder.flatten]))
      (sound content (by simp [Decoder.flatten]))
  · obtain ⟨_, st₁, mark, h⟩ := bind_eq_ok h
    obtain ⟨_, st₂, saved, take⟩ := bind_eq_ok h
    have marked := emit_ok mark
    have carries := saveEntries_carries carrier saved fun v mem => by
      rw [marked.store]
      exact sound v mem
    exact .of_gathers (carries.behindMark mark) take (takes_setItems entries)

theorem storeEach_fills (carrier : x.Carrier save) {entries : List (Value × Value)}
    (h : storeEach save entries st = .ok () st')
    (sound : ∀ v ∈ Decoder.flatten entries, x.Sound st.store v) :
    x.Fills (tableFilling holds_dict) st st' entries := by
  induction entries generalizing st with
  | nil => cases h; exact .nil rfl rfl (.refl _)
  | cons entry rest ih =>
    obtain ⟨key, content⟩ := entry
    obtain ⟨_, st₁, first, h⟩ := bind_eq_ok h
    obtain ⟨_, st₂, second, h⟩ := bind_eq_ok h
    obtain ⟨_, st₃, take, h⟩ := bind_eq_ok h
    have fills := storeEntry_fills carrier first second take (sound key (by simp [Decoder.flatten]))
      (sound content (by simp [Decoder.flatten]))
    have later : ∀ v ∈ Decoder.flatten rest, x.Sound st.store v :=
      fun v mem => sound v (List.mem_cons_of_mem _ (List.mem_cons_of_mem _ mem))
    exact fills.trans (ih h fun v mem => (later v mem).grown fills.sent.store) later

theorem storeEntries_fills (carrier : x.Carrier save) {entries : List (Value × Value)}
    (h : storeEntries x.encoder save entries st = .ok () st')
    (sound : ∀ v ∈ Decoder.flatten entries, x.Sound st.store v) :
    x.Fills (tableFilling holds_dict) st st' entries := by
  unfold storeEntries at h
  split at h
  · exact fills_batches (storeBatch_fills carrier) h sound
  · exact storeEach_fills carrier h sound

theorem addBatch_fills (carrier : x.Carrier save) (members : List Value)
    (st st' : Encoder.State H) (h : addBatch save members st = .ok () st')
    (sound : ∀ v ∈ members.flatMap (setFilling (H := H)).values, x.Sound st.store v) :
    x.Fills setFilling st st' members := by
  unfold addBatch at h
  split at h
  · cases h; exact .nil rfl rfl (.refl _)
  · obtain ⟨_, st₁, mark, h⟩ := bind_eq_ok h
    obtain ⟨_, st₂, saved, take⟩ := bind_eq_ok h
    have marked := emit_ok mark
    have all : members.flatMap (setFilling (H := H)).values = members := by simp [setFilling]
    rw [all] at sound
    have carries := saveAll_carries carrier saved fun v mem => by
      rw [marked.store]
      exact sound v mem
    rw [← all] at carries
    exact .of_gathers (carries.behindMark mark) take (takes_addItems members)

theorem addBatches_fills (carrier : x.Carrier save) {members : List Value}
    (h : (batches members).forM (addBatch save) st = .ok () st')
    (sound : ∀ v ∈ members, x.Sound st.store v) : x.Fills setFilling st st' members := by
  refine fills_batches (addBatch_fills carrier) h ?_
  simpa [setFilling] using sound

end Trip

end ObjectStream
