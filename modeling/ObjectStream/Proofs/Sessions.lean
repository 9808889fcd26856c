import ObjectStream.Proofs.RoundTrip

/-!
Sessions.

An encoder can write stream after stream into one sink, and its memo goes on from one to the next; so
does the memo of a decoder that reads them. Both memos stay in step (`Lockstep`), and the values that
arrive are the joint graph that was written (`loadAll_dumpAll`). The induction is on the values: what
it carries from one stream to the next is that both sides are linked and the decoder stands where the
next stream begins (`Trip.Session`).
-/

namespace ObjectStream

open Decoder (Machine After resolved)
open Encoder

variable {H : Type} [HostObject H]

/-! ## Stream after stream -/

namespace Encoder

/-- Writes a stream for each value, one behind the other. -/
def dumpAll (cfg : Config H) : List Value → Encode H Unit
  | [] => pure ()
  | v :: vs => do
    dump cfg v
    dumpAll cfg vs

theorem dumpAll_append {cfg : Config H} {st st' : State H} {vs us : List Value}
    (h : dumpAll cfg (vs ++ us) st = .ok () st') :
    ∃ st₁, dumpAll cfg vs st = .ok () st₁ ∧ dumpAll cfg us st₁ = .ok () st' := by
  induction vs generalizing st with
  | nil => exact ⟨st, rfl, h⟩
  | cons v vs ih =>
    obtain ⟨_, st₀, first, rest⟩ := bind_eq_ok h
    obtain ⟨st₁, run, run'⟩ := ih rest
    exact ⟨st₁, by rw [dumpAll, bind_ok first, run], run'⟩

end Encoder

namespace Decoder

/-- Reads so many streams, one behind the other. -/
def loadAll (cfg : Config H) : (count : Nat) → Decode H (List Value)
  | 0 => pure []
  | count + 1 => do
    let v ← load cfg
    let vs ← loadAll cfg count
    pure (v :: vs)

variable {cfg : Config H} {st st' st'' : State H}

theorem loadAll_cons {v : Value} {vs : List Value} {count : Nat} (first : load cfg st = .ok v st')
    (rest : loadAll cfg count st' = .ok vs st'') : loadAll cfg (count + 1) st = .ok (v :: vs) st'' := by
  rw [loadAll, bind_ok first, bind_ok rest]
  rfl

theorem loadAll_add {vs us : List Value} {count more : Nat} (h : loadAll cfg count st = .ok vs st')
    (h' : loadAll cfg more st' = .ok us st'') :
    loadAll cfg (count + more) st = .ok (vs ++ us) st'' := by
  induction count generalizing st vs with
  | zero =>
    cases h
    rw [Nat.zero_add]
    exact h'
  | succ count ih =>
    obtain ⟨v, st₁, first, rest⟩ := bind_eq_ok h
    obtain ⟨vs, st₂, rest, done⟩ := bind_eq_ok rest
    cases done
    rw [Nat.succ_add]
    exact loadAll_cons first (ih rest)

/-- Behind the last stream there is nothing to read. -/
theorem load_endOfInput (ready : st.input.Ready []) :
    ∃ st', load cfg st = .error .endOfInput st' := by
  obtain ⟨js, ks, later, same, place, spelled⟩ := ready
  obtain ⟨rfl, rfl⟩ := List.append_eq_nil_iff.1 same.symm
  have nothing : later = [] := by
    generalize none : ([] : List Instruction) = is at spelled
    cases spelled with
    | done => rfl
    | bare _ => cases none
    | framed long _ =>
      obtain ⟨rfl, -⟩ := List.append_eq_nil_iff.1 none.symm
      cases long
  subst nothing
  let start : State H := { st with stack := #[], marks := [], marked := 0, protocol := 0 }
  have place : start.input.At [] [] := ⟨place.faultless, .inr place.empty⟩
  obtain ⟨r, ended⟩ := readOpcode_ended place
  refine ⟨closeFrame { start with input := r }, ?_⟩
  have run : run cfg (st.input.remaining + 1) start = .error .endOfInput { start with input := r } := by
    rw [run, step, bind_apply, bind_apply, ended]
  rw [load, run]

end Decoder

/-! ## Sessions of linked sides -/

namespace Trip

variable {x : Trip H} {st st' st'' : Encoder.State H} {v : Value} {vs : List Value}
  {is : List Instruction} {dst dst' : Decoder.State H}

/-- The limits allow the decoder to carry out so many instructions, and to read what is left. -/
structure Allowed (x : Trip H) (dst : Decoder.State H) (count : Nat) : Prop where
  frame : dst.input.remaining ≤ x.decoder.limits.maxFrameLength
  word : dst.input.remaining < 2 ^ 64
  stack : count ≤ x.decoder.limits.maxStack
  memo : dst.memo.size + count ≤ x.decoder.limits.maxMemo

section
variable {count more : Nat} {rest : List Instruction}

omit [HostObject H] in
theorem Allowed.fewer (h : x.Allowed dst more) (fewer : count ≤ more) : x.Allowed dst count :=
  ⟨h.frame, h.word, Nat.le_trans fewer h.stack, Nat.le_trans (Nat.add_le_add_left fewer _) h.memo⟩

omit [HostObject H] in
theorem Allowed.passed (h : x.Allowed dst (count + more)) (passed : dst.Passed dst' count rest) :
    x.Allowed dst' more := by
  have memo := passed.memo
  have room := h.memo
  exact ⟨Nat.le_trans passed.remaining h.frame, Nat.lt_of_le_of_lt passed.remaining h.word,
    Nat.le_trans (Nat.le_add_left ..) h.stack, by omega⟩

end

/-- Behind `m` the machine `m'` has read copies of the values, and both sides are linked again. -/
structure Caught (x : Trip H) (st' : Encoder.State H) (m m' : Machine H) (vs ws : List Value) :
    Prop where
  linked : x.Linked st' (x.told m') []
  after : After none (x.told m) (x.told m')
  same : List.Forall₂ (Match (Link st'.memo m'.memo)) vs ws

/-- Between the two states streams were written, which a decoder that was in step reads. -/
structure Session (x : Trip H) (st st' : Encoder.State H) (vs : List Value)
    (is : List Instruction) : Prop where
  bare : st'.frames.pending = none
  sent : Further st st'
  wrote : Wrote st st' is
  reads : ∀ (dst : Decoder.State H) (rest : List Instruction), x.Linked st (x.told dst.machine) [] →
    dst.input.Ready (is ++ rest) → x.Allowed dst is.length →
    ∃ ws dst', Decoder.loadAll x.decoder vs.length dst = .ok ws dst' ∧
      dst.Passed dst' is.length rest ∧ x.Caught st' dst.machine dst'.machine vs ws

/-- A decoder that is in step reads one stream. -/
theorem Streams.read (streams : x.Streams st st' v is) (total : x.total) {rest : List Instruction}
    (linked : x.Linked st (x.told dst.machine) []) (ready : dst.input.Ready (is ++ ⟨.stop, ()⟩ :: rest))
    (allowed : x.Allowed dst is.length) :
    ∃ w dst', Decoder.load x.decoder dst = .ok w dst' ∧ dst.Passed dst' is.length rest ∧
      x.Caught st' dst.machine dst'.machine [v] [w] := by
  have leads := streams.leads dst.machine (fun m => ∃ below w, m.stack = below ++ [w] ∧
    x.Caught st' dst.machine (m.withStack below) [v] [w]) linked ?_
  · rcases Decoder.load_of_leads (Q := fun w m => x.Caught st' dst.machine m [v] [w]) ready
      allowed.frame allowed.word allowed.stack allowed.memo leads with
      ⟨w, dst', run, passed, caught⟩ | ⟨partly, -⟩
    · exact ⟨w, dst', run, passed, caught⟩
    · exact absurd total partly
  · intro m w pushed
    have told : (x.told (m.withStack [])).protocol = m.protocol := pushed.linked.protocol.symm
    exact ⟨[], w, pushed.stack, pushed.linked.congr rfl rfl rfl rfl told,
      pushed.after.trans (.of_eq rfl rfl pushed.after.marks.symm), pushed.same⟩

theorem Session.nil (bare : st.frames.pending = none) : x.Session st st [] [] where
  bare := bare
  sent := .of_eq rfl rfl
  wrote := (Silent.refl st).wrote
  reads dst _ linked ready _ := ⟨[], dst, rfl, ⟨ready, Nat.le_refl _, Nat.le_refl _⟩, linked,
    .refl _, .nil⟩

theorem Session.cons {js : List Instruction} (streams : x.Streams st st' v is) (total : x.total)
    (session : x.Session st' st'' vs js) :
    x.Session st st'' (v :: vs) (is ++ [⟨.stop, ()⟩] ++ js) where
  bare := session.bare
  sent := streams.sent.trans session.sent
  wrote := streams.wrote.trans session.wrote
  reads dst rest linked ready allowed := by
    rw [List.append_assoc, List.append_assoc] at ready
    rw [List.length_append, List.length_append] at allowed ⊢
    obtain ⟨w, dst₁, load, passed, caught⟩ := streams.read total linked ready
      (allowed.fewer (by omega))
    have passed : dst.Passed dst₁ (is.length + 1) (js ++ rest) :=
      ⟨passed.ready, passed.remaining, Nat.le_succ_of_le passed.memo⟩
    obtain ⟨ws, dst', loads, passed', caught'⟩ :=
      session.reads dst₁ rest caught.linked passed.ready (allowed.passed passed)
    refine ⟨w :: ws, dst', Decoder.loadAll_cons load loads, passed.trans passed', caught'.linked,
      caught.after.trans caught'.after, ?_⟩
    · cases caught.same with
      | cons same _ =>
        refine .cons (same.mono fun i j link => ?_) caught'.same
        have grown : Link st''.memo (x.told dst'.machine).memo i j :=
          Link.grow (m := x.told dst₁.machine) link session.sent caught'.after
        exact grown

/-- Dumps that succeed one after the other are a session. -/
theorem session_of_dumpAll (agrees : x.Agrees) (total : x.total) (bare : st.frames.pending = none)
    (source : x.source.Grown st.store) (sound : ∀ v ∈ vs, x.Sound x.source v)
    (h : dumpAll x.encoder vs st = .ok () st') : ∃ is, x.Session st st' vs is := by
  induction vs generalizing st with
  | nil =>
    cases h
    exact ⟨[], .nil bare⟩
  | cons v vs ih =>
    obtain ⟨_, st₁, first, rest⟩ := bind_eq_ok h
    obtain ⟨is, streams⟩ :=
      x.dump_streams agrees bare ((sound v (List.mem_cons_self ..)).grown source) first
    obtain ⟨js, session⟩ := ih streams.bare (source.trans streams.sent.store)
      (fun v mem => sound v (List.mem_cons_of_mem _ mem)) rest
    exact ⟨_, .cons streams total session⟩

end Trip

/-! ## Lockstep -/

/-- The object that `f` gives in the other store is alike, or the global that a name stands for. -/
def Counterpart (f : Nat → Nat) (s s' : Store H) (i : Nat) : Prop :=
  ∃ cell cell', s.cells[i]? = some cell ∧ s'.cells[f i]? = some cell' ∧
    (cell.Matches (fun i j => f i = j) cell' ∨ ∃ module qualname symbol,
      cell = .global (.named module qualname) ∧
        cell' = .global (resolved ⟨module, qualname⟩ symbol))

/-- Both memos have the same size, and the decoder remembers under each number the counterpart of the
    object that the encoder gave the number to. -/
structure Lockstep (f : Nat → Nat) (st : Encoder.State H) (dst : Decoder.State H) : Prop where
  size : dst.memo.size = st.memo.size
  entries : ∀ n < st.memo.size, ∃ i, st.memo[Identity.object i]? = some n ∧
    dst.memo[n]? = some (.ref (f i)) ∧ Counterpart f st.store dst.store i

namespace Trip

variable {x : Trip H} {st : Encoder.State H} {dst : Decoder.State H} {vs : List Value}
  {f : Nat → Nat}

/-- Linked sides that remember no class are in lockstep along every map that follows the link. -/
theorem lockstep_of_linked (classless : ∀ c, ¬x.classes c) (named : ∀ g, ¬x.globals g)
    (linked : x.Linked st (x.told dst.machine) [])
    (map : ∀ i j, Link st.memo dst.memo i j → f i = j) : Lockstep f st dst := by
  refine ⟨linked.numbers.size, fun n below => ?_⟩
  obtain ⟨a, here⟩ := linked.numbers.onto n below
  cases a with
  | ofClass key =>
    obtain ⟨c, _, known, -⟩ := linked.ofClass key n here
    exact absurd known (classless c)
  | object i =>
    obtain ⟨j, link, there⟩ := linked.exists_link here
    obtain rfl := map i j link
    obtain ⟨cell, found⟩ := Store.cell_of_lt_size (linked.lt_size link).1
    refine ⟨i, here, there, cell, ?_⟩
    cases linked.remembered i _ cell link List.not_mem_nil found with
    | copy copied =>
      obtain ⟨cell', held, same, -⟩ := copied
      exact ⟨cell', found, held, .inl (same.mono map)⟩
    | name met wire _ held =>
      obtain ⟨module, qualname, rfl⟩ := met.resolve_right (named _)
      have wire : Except.ok (⟨module, qualname⟩ : Name) = .ok _ := wire
      cases wire
      exact ⟨_, found, held, .inr ⟨_, _, _, rfl, rfl⟩⟩

/-- A session is read in lockstep, to a copy of the joint graph and to the end of the input. -/
theorem reads_in_lockstep (base : Store H) (agrees : x.Agrees) (total : x.total)
    (classless : ∀ c, ¬x.classes c) (sound : ∀ v ∈ vs, x.Sound x.source v)
    (dumped : dumpAll x.encoder vs (.ofSink x.source {} {}) = .ok () st)
    (usual : x.decoder.limits = {}) (word : st.frames.sink.written.toList.length < 2 ^ 64)
    (named : ∀ g, ¬x.globals g := by exact fun _ => id) :
    let start : Decoder.State H := .ofSource base (.ofBytes st.frames.sink.written.toList) none {}
    ∃ ws dst f, Decoder.loadAll x.decoder vs.length start = .ok ws dst ∧
      Corresponds f x.source dst.store vs ws ∧
      (∃ dst', Decoder.load x.decoder dst = .error .endOfInput dst') ∧
      ∀ k ≤ vs.length, ∃ st₁ dst₁,
        dumpAll x.encoder (vs.take k) (.ofSink x.source {} {}) = .ok () st₁ ∧
        Decoder.loadAll x.decoder k start = .ok (ws.take k) dst₁ ∧ Lockstep f st₁ dst₁ := by
  intro start
  have linked : x.Linked (.ofSink x.source {} {}) (x.told start.machine) [] :=
    linked_start rfl rfl base
  have remaining : start.input.remaining = st.frames.sink.written.toList.length :=
    Decoder.remaining_ofSource _
  have allowed : ∀ {is : List Instruction}, Spells is st.frames.sink.written.toList →
      x.Allowed start is.length := by
    intro is spelled
    have short := spelled.length_le
    have forgetful : start.memo.size = 0 := rfl
    exact ⟨by rw [usual]; show start.input.remaining ≤ 2 ^ 64 - 1; omega,
      by show start.input.remaining < _; omega, by rw [usual]; show _ ≤ 2 ^ 64 - 1; omega,
      by rw [usual, forgetful]; show _ ≤ 2 ^ 64 - 1; omega⟩
  -- the whole session, read at once
  obtain ⟨is, session⟩ := session_of_dumpAll agrees total rfl (.refl _) sound dumped
  have spelled := session.wrote.spells .nothing session.bare
  obtain ⟨ws, dst, loads, passed, caught⟩ := session.reads start [] linked
    (by rw [List.append_nil]; exact Decoder.ready_ofSource spelled) (allowed spelled)
  obtain ⟨f, map⟩ := Link.exists_map st.memo dst.memo
  refine ⟨ws, dst, f, loads, corresponds_of_linked caught.linked sound caught.same map,
    Decoder.load_endOfInput passed.ready, fun k inside => ?_⟩
  -- the same session up to the stream `k`, and on from there
  rw [← List.take_append_drop k vs] at dumped
  obtain ⟨st₁, former, later⟩ := dumpAll_append dumped
  obtain ⟨is₁, first⟩ := session_of_dumpAll agrees total rfl (.refl _)
    (fun v mem => sound v (List.mem_of_mem_take mem)) former
  obtain ⟨is₂, second⟩ := session_of_dumpAll agrees total first.bare first.sent.store
    (fun v mem => sound v (List.mem_of_mem_drop mem)) later
  have spelled' := (first.wrote.trans second.wrote).spells .nothing second.bare
  have allowed' := allowed spelled'
  rw [List.length_append] at allowed'
  obtain ⟨ws₁, dst₁, loads₁, passed₁, caught₁⟩ := first.reads start is₂ linked
    (Decoder.ready_ofSource spelled') (allowed'.fewer (Nat.le_add_right ..))
  obtain ⟨ws₂, dst₂, loads₂, passed₂, caught₂⟩ := second.reads dst₁ [] caught₁.linked
    (by rw [List.append_nil]; exact passed₁.ready) (allowed'.passed passed₁)
  have whole := Decoder.loadAll_add loads₁ loads₂
  have count : (vs.take k).length = k := List.length_take_of_le inside
  rw [← List.length_append, List.take_append_drop, loads] at whole
  cases whole
  have read : ws₁.length = k := caught₁.same.length_eq.symm.trans count
  rw [count] at loads₁
  refine ⟨st₁, dst₁, former, ?_, lockstep_of_linked classless named caught₁.linked fun i j link => ?_⟩
  · rw [loads₁, ← read, List.take_left]
  · have grown : Link st.memo (x.told dst.machine).memo i j :=
      Link.grow (m := x.told dst₁.machine) link second.sent caught₂.after
    exact map i j grown

end Trip

variable {s : Store H} {p : Protocol} {vs : List Value} {st : Encoder.State H}

/-- Graphs of built-in kinds that one encoder writes one after the other, one decoder reads back as
    one joint graph. After each of them both memos are in lockstep, and behind the last one the input
    is at its end. -/
theorem loadAll_dumpAll {n : Nat} {host : Host H} (n' : Nat) (host' : Host H) (base : Store H)
    (tidy : ∀ v ∈ vs, s.Tidy True (fun _ => False) v)
    (dumped : dumpAll { registry := .seeded n, host := host, protocol := p } vs (.ofSink s {} {}) =
      .ok () st) (word : st.frames.sink.written.toList.length < 2 ^ 64) :
    let start : Decoder.State H := .ofSource base (.ofBytes st.frames.sink.written.toList) none {}
    let config : Decoder.Config H := { registry := .seeded n', host := host' }
    ∃ ws dst f, Decoder.loadAll config vs.length start = .ok ws dst ∧
      Corresponds f s dst.store vs ws ∧
      (∃ dst', Decoder.load config dst = .error .endOfInput dst') ∧
      ∀ k ≤ vs.length, ∃ st₁ dst₁,
        dumpAll { registry := .seeded n, host := host, protocol := p } (vs.take k)
          (.ofSink s {} {}) = .ok () st₁ ∧
        Decoder.loadAll config k start = .ok (ws.take k) dst₁ ∧ Lockstep f st₁ dst₁ := by
  let x : Trip H := .builtIn n n' host host' p s
  have agrees : x.Agrees := Trip.builtIn_agrees
  have sound : ∀ v ∈ vs, x.Sound x.source v := fun v mem => Trip.builtIn_sound (tidy v mem)
  exact x.reads_in_lockstep base agrees trivial (fun _ => id) sound dumped rfl word

/-- The second stream only fetches the list that the first one left in the memo. -/
theorem dumpAll_knot : ∃ st,
    dumpAll { registry := .seeded 0, host := ({} : Host Empty), protocol := 2 } [.ref 1, .ref 0]
      (.ofSink knot {} {}) = .ok () st ∧
    st.frames.sink.written.toList = [0x80, 2, 0x5d, 0x71, 0, 0x68, 0, 0x85, 0x71, 1, 0x61, 0x30,
      0x68, 1, 0x2e, 0x80, 2, 0x68, 0, 0x2e] := by
  have whole : Drafts (dumpAll { registry := .seeded 0, host := ({} : Host Empty), protocol := 2 }
      [.ref 1, .ref 0]) ⟨knot, [], []⟩ fun _ d => d.log = knotDraft.log ++ [⟨.stop, ()⟩,
        ⟨.proto, (2 : UInt8)⟩, ⟨.binGet, (0 : UInt8)⟩, ⟨.stop, ()⟩] := by
    refine Drafts.bind (drafts_dump (by decide) (drafts_knot.mono ?_))
    rintro _ _ rfl
    refine Drafts.bind (drafts_dump (by decide) ?_)
    refine drafts_known rfl rfl (drafts_emit (Drafts.pure ?_))
    rfl
  obtain ⟨_, st, d, run, here, log⟩ := whole _ (shows_ofSink knot)
  exact ⟨st, run, by rw [here.written, log]; rfl⟩

theorem loadAll_dumpAll_knot :
    (∀ v ∈ [Value.ref 1, .ref 0], knot.Tidy True (fun _ => False) v) ∧ ∃ ws dst f,
      Decoder.loadAll { registry := .seeded 1, host := {} } 2 (.ofSource (Store.empty : Store Empty)
        (.ofBytes [0x80, 2, 0x5d, 0x71, 0, 0x68, 0, 0x85, 0x71, 1, 0x61, 0x30, 0x68, 1, 0x2e, 0x80,
          2, 0x68, 0, 0x2e]) none {}) = .ok ws dst ∧
      Corresponds f knot dst.store [.ref 1, .ref 0] ws := by
  have tidy : ∀ v ∈ [Value.ref 1, .ref 0], knot.Tidy True (fun _ => False) v := by
    intro v mem
    rcases List.mem_pair.1 mem with rfl | rfl
    · exact tidy_knot
    · have reach : knot.Reaches (.ref 1) (.ref 0) := .child .self rfl (List.mem_singleton_self _)
      exact fun i inside => tidy_knot i (reach.trans inside)
  obtain ⟨st, dumped, written⟩ := dumpAll_knot
  have word : st.frames.sink.written.toList.length < 2 ^ 64 := by
    rw [written]
    decide
  have read := loadAll_dumpAll 1 {} .empty tidy dumped word
  rw [written] at read
  obtain ⟨ws, dst, f, loads, same, -⟩ := read
  exact ⟨tidy, ws, dst, f, loads, same⟩

end ObjectStream
