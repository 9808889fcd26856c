import ObjectStream.Decoder
import ObjectStream.Proofs.Walk

/-!
What arrives.

A stream is an announcement, what the walk writes, and a `STOP`. The decoder reads it to the copy of
the value that was written, and the two graphs are alike (`Trip.delivers`).
-/

namespace ObjectStream

open Decoder (Machine Leads After)
open Encoder

variable {H : Type} [HostObject H]

namespace Trip

variable {x : Trip H} {st st' : Encoder.State H} {m : Machine H} {v w : Value}

/-- A map along the link of both memos is a correspondence of the graphs. -/
theorem corresponds_of_linked {f : Nat → Nat} {vs ws : List Value} (linked : x.Linked st m [])
    (sound : ∀ v ∈ vs, x.Sound x.source v)
    (same : List.Forall₂ (Match (Link st.memo m.memo)) vs ws)
    (map : ∀ i j, Link st.memo m.memo i j → f i = j) :
    Corresponds f x.source m.store vs ws := by
  have mirror := linked.mirror_of_sound sound fun _ _ => List.forall_mem_nil _
  exact mirror.paired.corresponds (match_keyLink same fun _ mem => mem) fun i j r => map i j r.1

/-! ## Streams -/

theorem leads_announcement {Q : Machine H → Prop} (fresh : m.protocol = 0)
    (h : Q { m with protocol := x.announced }) :
    Leads x.decoder x.total x.encoder.announcement m Q := by
  have bound := x.encoder.protocol.isLt
  unfold Config.announcement
  unfold announced at h
  split
  · next recent =>
    have same : (UInt8.ofNat x.encoder.protocol.val).toNat = x.encoder.protocol.val :=
      UInt8.toNat_ofNat_of_lt' (show _ < 256 by omega)
    rw [if_pos recent] at h
    refine Decoder.leads_proto (by rw [same]; omega) ?_
    rw [same]
    exact h
  · next early =>
    rw [if_neg early, ← fresh] at h
    exact h

/-- The machine behind the announcement of a stream. -/
def told (x : Trip H) (m : Machine H) : Machine H := { m.fresh with protocol := x.announced }

/-- Between the two states a stream was written that leads to a copy of the value. -/
structure Streams (x : Trip H) (st st' : Encoder.State H) (v : Value) (is : List Instruction) :
    Prop where
  bare : st'.frames.pending = none
  sent : Further st st'
  wrote : Wrote st st' (is ++ [⟨.stop, ()⟩])
  leads : ∀ m Q, x.Linked st (x.told m) [] →
    (∀ m' w, x.Pushed st' [] (x.told m) m' [v] [w] → Q m') → Leads x.decoder x.total is m.fresh Q

/-- A dump streams the value, whatever was dumped before. -/
theorem dump_streams (agrees : x.Agrees) (bare : st.frames.pending = none)
    (sound : x.Sound st.store v) (h : dump x.encoder v st = .ok () st') :
    ∃ is, x.Streams st st' v is := by
  obtain ⟨st₁, st₂, begun, saved, ended, bare'⟩ := dump_ok bare h
  have carries := (save_saver agrees _).carrier v st₁ st₂ saved (by rw [begun.store]; exact sound)
  obtain ⟨is, wrote, leads⟩ := carries.performs
  refine ⟨x.encoder.announcement ++ is, bare', ?_, ?_, fun m Q linked q => ?_⟩
  · exact .trans (.of_eq begun.store begun.memo) (.trans carries.sent (.of_eq ended.store ended.memo))
  · rw [List.append_assoc]
    exact begun.wrote.trans (wrote.trans ended.wrote)
  · refine Leads.append (leads_announcement rfl (leads (x.told m) Q ?_))
    refine ⟨[], linked.congr begun.store begun.memo rfl rfl rfl, fun u _ => .nil u,
      fun m' ws pushed => ?_⟩
    cases pushed.same with
    | @cons _ w _ _ match_ tail =>
      cases tail
      refine q m' w ⟨pushed.linked.congr ended.store ended.memo rfl rfl rfl, pushed.after,
        pushed.stack, ?_⟩
      rw [ended.memo]
      exact .cons match_ .nil

/-- Before the walk both sides remember nothing. -/
theorem linked_start (store : st.store = x.source) (memo : st.memo = ∅) (base : Store H) :
    x.Linked st ⟨base, ∅, [], [], x.announced⟩ [] := by
  have nothing : ∀ a : Identity, st.memo[a]? = none := by
    rw [memo]
    simp
  constructor
  · rw [store]; exact .refl _
  · rfl
  · constructor
    · rw [memo]; rfl
    · intro a n here
      rw [nothing] at here
      cases here
    · simp
    · intro a b n here
      rw [nothing] at here
      cases here
    · intro n below
      rw [memo] at below
      exact absurd below (Nat.not_lt_zero n)
    · rw [memo]
      exact Nat.zero_le _
  · intro i n here
    rw [nothing] at here
    cases here
  · rintro i i' j ⟨n, here, -⟩
    rw [nothing] at here
    cases here
  · intro key n here
    rw [nothing] at here
    cases here
  · exact nofun
  · rintro i j cell ⟨n, here, -⟩
    rw [nothing] at here
    cases here

/-- What was written arrives: the decoder reads the stream to a copy of the graph. Where comparisons
    of keys are not known to end, it may also meet one that does not. -/
theorem delivers {bytes : Bytes} {store : Store H} (base : Store H) (agrees : x.Agrees)
    (sound : x.Sound x.source v)
    (dumped : dumps x.encoder x.source v = (.ok bytes, store))
    (frame : bytes.length ≤ x.decoder.limits.maxFrameLength) (word : bytes.length < 2 ^ 64)
    (stack : bytes.length ≤ x.decoder.limits.maxStack)
    (memo : bytes.length ≤ x.decoder.limits.maxMemo) :
    (∃ w base', Decoder.loads x.decoder base bytes = (.ok w, base') ∧
      Isomorphic x.source base' v w) ∨
      (¬x.total ∧ ∃ base', Decoder.loads x.decoder base bytes = (.error .endless, base')) := by
  obtain ⟨st', run, -, same⟩ := dumps_ok dumped
  obtain ⟨is, streams⟩ := x.dump_streams agrees rfl sound run
  have spells := streams.wrote.spells .nothing streams.bare
  rw [same] at spells
  have arrives : ∀ m' w, x.Pushed st' [] (x.told ⟨base, ∅, [], [], 0⟩) m' [v] [w] →
      ∃ below w, m'.stack = below ++ [w] ∧ Isomorphic x.source m'.store v w := by
    intro m' w pushed
    obtain ⟨f, map⟩ := Link.exists_map st'.memo m'.memo
    refine ⟨[], w, pushed.stack, Corresponds.isomorphic (f := f) ?_⟩
    exact corresponds_of_linked pushed.linked (List.forall_mem_singleton.2 sound) pushed.same map
  refine (Decoder.loads_of_leads (Q := fun w m => Isomorphic x.source m.store v w) spells frame word
    stack memo (streams.leads _ _ (linked_start rfl rfl base) arrives)).imp ?_ id
  exact fun ⟨w, m, run, alike⟩ => ⟨w, m.store, run, alike⟩

end Trip

end ObjectStream
