import GraphNode.Library.KeyedList

/-!
# Coalesced write logs

A log is a list of keyed actions, each acting on the state of its own key.  Its coalesced form
keeps one accumulated action per key, where accumulating `b` into `a` stands for "first `a`,
then `b`".  A coalesced list stands for a log when applying the accumulated action of each key
is replaying the log's actions on that key in order.  Recording an action into a coalesced
list (the hash-map `entry` idiom: insert into a vacant entry, accumulate into an occupied one)
keeps it standing for the log with that action appended, and recording one coalesced list into
another stands for the concatenation of their logs.
-/

namespace WriteLog

variable {κ α σ : Type} [DecidableEq κ]

section

variable (act : α → σ → σ)

/-- The state of key `k` after the actions of `log` on it, from `s`. -/
def replay (log : List (κ × α)) (k : κ) (s : σ) : σ :=
  log.foldl (fun s entry => if entry.1 = k then act entry.2 s else s) s

/-- The accumulated action of `k` in a coalesced list, applied to `s`. -/
def applyAt (coalesced : List (κ × α)) (k : κ) (s : σ) : σ :=
  match KeyedList.find Prod.fst coalesced k with
  | some entry => act entry.2 s
  | none => s

/-- A coalesced list stands for a log: its keys are distinct, and the accumulated action of
each key replays the log on that key. -/
structure Coalesces (coalesced log : List (κ × α)) : Prop where
  distinct : KeyedList.Distinct Prod.fst coalesced
  applyAt_eq : ∀ k s, applyAt act coalesced k s = replay act log k s

end

/-- Record action `a` for key `k`: a new entry for a fresh key, else accumulate it into the
key's entry. -/
def record (accumulate : α → α → α) (coalesced : List (κ × α)) (k : κ) (a : α) :
    List (κ × α) :=
  match KeyedList.find Prod.fst coalesced k with
  | none => coalesced ++ [(k, a)]
  | some _ => KeyedList.modify Prod.fst coalesced k fun entry => (entry.1, accumulate entry.2 a)

/-! ## Replaying a log -/

section

variable (act : α → σ → σ)

@[simp]
theorem replay_nil (k : κ) (s : σ) : replay act [] k s = s := rfl

@[simp]
theorem replay_cons (entry : κ × α) (log : List (κ × α)) (k : κ) (s : σ) :
    replay act (entry :: log) k s = replay act log k (if entry.1 = k then act entry.2 s else s) :=
  rfl

@[simp]
theorem replay_append (front back : List (κ × α)) (k : κ) (s : σ) :
    replay act (front ++ back) k s = replay act back k (replay act front k s) := by
  simp [replay, List.foldl_append]

/-- Actions on other keys leave the state of `k` alone. -/
theorem replay_of_absent {log : List (κ × α)} {k : κ} (absent : ∀ entry ∈ log, entry.1 ≠ k)
    (s : σ) : replay act log k s = s := by
  induction log generalizing s with
  | nil => rfl
  | cons entry log induction =>
      rw [replay_cons, if_neg (absent entry List.mem_cons_self)]
      exact induction (fun other member => absent other (List.mem_cons_of_mem _ member)) s

theorem applyAt_cons (entry : κ × α) (coalesced : List (κ × α)) (k : κ) (s : σ) :
    applyAt act (entry :: coalesced) k s =
      if entry.1 = k then act entry.2 s else applyAt act coalesced k s := by
  unfold applyAt
  rw [KeyedList.find_cons]
  by_cases hit : entry.1 = k <;> simp [hit]

/-- A list of distinct keys is its own coalesced form. -/
theorem replay_of_distinct {coalesced : List (κ × α)}
    (distinct : KeyedList.Distinct Prod.fst coalesced) (k : κ) (s : σ) :
    replay act coalesced k s = applyAt act coalesced k s := by
  induction coalesced generalizing s with
  | nil => rfl
  | cons entry rest induction =>
      obtain ⟨fresh, distinct⟩ := List.nodup_cons.mp distinct
      rw [replay_cons, applyAt_cons]
      by_cases hit : entry.1 = k
      · -- the key occurs once, so the rest of the list leaves it alone
        have absent : ∀ other ∈ rest, other.1 ≠ k := by
          intro other member same
          exact fresh (hit ▸ same ▸ List.mem_map_of_mem member)
        rw [if_pos hit, if_pos hit, replay_of_absent act absent]
      · rw [if_neg hit, if_neg hit]
        exact induction distinct s

theorem coalesces_nil : Coalesces act ([] : List (κ × α)) [] :=
  ⟨List.nodup_nil, fun _ _ => rfl⟩

theorem coalesces_self {coalesced : List (κ × α)}
    (distinct : KeyedList.Distinct Prod.fst coalesced) : Coalesces act coalesced coalesced :=
  ⟨distinct, fun k s => (replay_of_distinct act distinct k s).symm⟩

/-- A coalesced list stands for every log that replays the same on each key. -/
theorem Coalesces.congr {act : α → σ → σ} {coalesced log log' : List (κ × α)}
    (coalesces : Coalesces act coalesced log)
    (same : ∀ k s, replay act log k s = replay act log' k s) :
    Coalesces act coalesced log' :=
  ⟨coalesces.distinct, fun k s => (coalesces.applyAt_eq k s).trans (same k s)⟩

/-- In a log, a coalesced list can stand for the part it coalesces. -/
theorem Coalesces.replay_append_log {act : α → σ → σ} {coalesced log front : List (κ × α)}
    (coalesces : Coalesces act coalesced log) {k : κ} {s : σ} :
    replay act (front ++ coalesced) k s = replay act (front ++ log) k s := by
  rw [replay_append, replay_append, replay_of_distinct act coalesces.distinct,
    coalesces.applyAt_eq]

/-- When no action leaves every state alone, each key of a coalesced list occurs in its log. -/
theorem Coalesces.exists_mem_log {act : α → σ → σ} {coalesced log : List (κ × α)}
    (coalesces : Coalesces act coalesced log) (moves : ∀ a, ∃ s, act a s ≠ s)
    {entry : κ × α} (member : entry ∈ coalesced) : ∃ logged ∈ log, logged.1 = entry.1 := by
  by_contra missing
  have absent : ∀ logged ∈ log, logged.1 ≠ entry.1 :=
    fun logged member same => missing ⟨logged, member, same⟩
  obtain ⟨s, moved⟩ := moves entry.2
  have found := KeyedList.find_of_mem coalesces.distinct member
  apply moved
  calc act entry.2 s = applyAt act coalesced entry.1 s := by simp [applyAt, found]
    _ = replay act log entry.1 s := coalesces.applyAt_eq _ _
    _ = s := replay_of_absent act absent s

end

/-! ## Recording actions -/

section

variable {act : α → σ → σ} {accumulate : α → α → α}
  (law : ∀ a b s, act (accumulate a b) s = act b (act a s))

include law in
theorem applyAt_record (coalesced : List (κ × α)) (k : κ) (a : α) (probe : κ) (s : σ) :
    applyAt act (record accumulate coalesced k a) probe s =
      if k = probe then act a (applyAt act coalesced probe s)
      else applyAt act coalesced probe s := by
  cases found : KeyedList.find Prod.fst coalesced k with
  | none =>
      simp only [record, found, applyAt]
      rw [KeyedList.find_append, KeyedList.find_cons]
      by_cases same : k = probe
      · subst same
        simp [found]
      · simp [same]
  | some entry =>
      simp only [record, found, applyAt]
      rw [@KeyedList.find_modify (κ × α) κ _ Prod.fst (fun entry => (entry.1, accumulate entry.2 a))
        (fun _ => rfl)]
      by_cases same : k = probe
      · subst same
        simp [found, law]
      · simp [same]

theorem distinct_record_of_distinct {coalesced : List (κ × α)}
    (distinct : KeyedList.Distinct Prod.fst coalesced) (k : κ) (a : α) :
    KeyedList.Distinct Prod.fst (record accumulate coalesced k a) := by
  cases found : KeyedList.find Prod.fst coalesced k with
  | none =>
      simp only [record, found]
      exact KeyedList.distinct_append_fresh distinct found
  | some _ =>
      simp only [record, found]
      exact @KeyedList.distinct_modify (κ × α) κ _ Prod.fst
        (fun entry => (entry.1, accumulate entry.2 a)) (fun _ => rfl) _ distinct k

include law in
/-- Recording an action extends the log by it. -/
theorem Coalesces.record {coalesced log : List (κ × α)} (coalesces : Coalesces act coalesced log)
    (k : κ) (a : α) : Coalesces act (WriteLog.record accumulate coalesced k a) (log ++ [(k, a)]) := by
  refine ⟨distinct_record_of_distinct coalesces.distinct k a, fun probe s => ?_⟩
  rw [applyAt_record law, replay_append, ← coalesces.applyAt_eq]
  by_cases same : k = probe <;> simp [same]

include law in
/-- Recording a list of actions one by one extends the log by the list. -/
theorem Coalesces.foldl_record {coalesced log : List (κ × α)}
    (coalesces : Coalesces act coalesced log) (entries : List (κ × α)) :
    Coalesces act (entries.foldl (fun coalesced entry =>
      WriteLog.record accumulate coalesced entry.1 entry.2) coalesced) (log ++ entries) := by
  induction entries generalizing coalesced log with
  | nil => simpa using coalesces
  | cons entry entries induction =>
      simpa using induction (coalesces.record law entry.1 entry.2)

include law in
/-- Recording one coalesced list into another stands for the concatenation of their logs. -/
theorem Coalesces.foldl_record_coalesced {front back frontLog backLog : List (κ × α)}
    (first : Coalesces act front frontLog) (second : Coalesces act back backLog) :
    Coalesces act (back.foldl (fun coalesced entry =>
      WriteLog.record accumulate coalesced entry.1 entry.2) front) (frontLog ++ backLog) :=
  (first.foldl_record law back).congr fun _ _ => second.replay_append_log

end

/-! ## Recording into a map

With an associative accumulation, a map is its own coalesced form under the action of recording
into an entry (`entryAct`).  Recording the coalesced form of some actions then gives the same map
as recording the actions one by one. -/

section

variable {accumulate : α → α → α}
  (assoc : ∀ a b c, accumulate (accumulate a b) c = accumulate a (accumulate b c))

/-- The action of recording `a` on a key's entry: start it, or accumulate into it. -/
def entryAct (accumulate : α → α → α) (a : α) : Option α → Option α
  | none => some a
  | some previous => some (accumulate previous a)

include assoc in
theorem entryAct_accumulate (a b : α) (entry : Option α) :
    entryAct accumulate (accumulate a b) entry =
      entryAct accumulate b (entryAct accumulate a entry) := by
  cases entry <;> simp [entryAct, assoc]

theorem applyAt_entryAct_none (coalesced : List (κ × α)) (k : κ) :
    applyAt (entryAct accumulate) coalesced k none =
      (KeyedList.find Prod.fst coalesced k).map Prod.snd := by
  unfold applyAt
  split <;> simp_all [entryAct]

include assoc in
/-- Recording the coalesced form of `entries` into a map `front` gives, at every key, the entry
that recording `entries` one by one gives. -/
theorem find_foldl_record_coalesced {front : List (κ × α)}
    (distinct : KeyedList.Distinct Prod.fst front) (entries : List (κ × α)) (k : κ) :
    (KeyedList.find Prod.fst ((entries.foldl (fun coalesced entry =>
        record accumulate coalesced entry.1 entry.2) []).foldl (fun coalesced entry =>
        record accumulate coalesced entry.1 entry.2) front) k).map Prod.snd =
      (KeyedList.find Prod.fst (entries.foldl (fun coalesced entry =>
        record accumulate coalesced entry.1 entry.2) front) k).map Prod.snd := by
  have law := entryAct_accumulate assoc
  have inner : Coalesces (entryAct accumulate) (entries.foldl (fun coalesced entry =>
      record accumulate coalesced entry.1 entry.2) []) entries := by
    simpa using (coalesces_nil (entryAct accumulate)).foldl_record law entries
  have outer := (coalesces_self (entryAct accumulate) distinct).foldl_record_coalesced law inner
  have direct := (coalesces_self (entryAct accumulate) distinct).foldl_record law entries
  rw [← applyAt_entryAct_none, ← applyAt_entryAct_none, outer.applyAt_eq, direct.applyAt_eq]

end

end WriteLog
