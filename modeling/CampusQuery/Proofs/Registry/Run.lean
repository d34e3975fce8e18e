import CampusQuery.Proofs.Outcome
import CampusQuery.Proofs.Registry.Store
import CampusQuery.Proofs.Row.Ingestion
import CampusQuery.Registry

/-! What a registry holds after any requests. Main statement: it holds only datasets with an allowed id
and rows that fit, by ascending id, and each further request leaves it alone, adds exactly one dataset
or removes exactly one. -/

namespace CampusQuery

namespace Registry

variable {α β : Type}

theorem perform_bind (r : Registry) (x : Request α) (f : α → Request β) :
    r.perform (x >>= f) =
      match r.perform x with
      | (.ok a, s) => s.perform (f a)
      | (.error e, s) => (.error e, s) := by
  have hbind : r.perform (x >>= f) =
      (fun p : Except Error α × Registry =>
        (ExceptT.bindCont f p.1 : StateM Registry (Except Error β)) p.2) (r.perform x) := rfl
  rw [hbind]
  rcases r.perform x with ⟨a | a, s⟩ <;> rfl

theorem perform_map (r : Registry) (x : Request α) (f : α → β) :
    r.perform (f <$> x) = ((r.perform x).1.map f, (r.perform x).2) := by
  rw [map_eq_pure_bind, perform_bind]
  rcases r.perform x with ⟨a | a, s⟩ <;> rfl

theorem perform_lift (r : Registry) (x : Except Error α) : r.perform (liftM x) = (x, r) := rfl

theorem perform_get (r : Registry) : r.perform (get : Request Registry) = (.ok r, r) := rfl

/-- The registry with one more dataset. -/
def adding (r : Registry) (d : Dataset) : Registry :=
  { r with store := r.store.placing d }

/-- The registry without the dataset of an id. -/
def removing (r : Registry) (id : String) : Registry := { r with store := r.store.without id }

end Registry

namespace Dataset

/-- What every dataset in a registry satisfies. -/
structure Sound (d : Dataset) : Prop where
  id_checked : checkId d.id = .ok ()
  rows_ne_nil : d.rows ≠ []
  rows_conform : ∀ row ∈ d.rows, row.conforms d.kind = true

end Dataset

namespace Request

open Registry

theorem perform_checkNew (r : Registry) (id : String) :
    ∃ outcome, r.perform (checkNew id) = (outcome, r) ∧
      (outcome = .ok () → Dataset.checkId id = .ok () ∧ r.store.get? id = none) := by
  unfold checkNew
  rw [perform_bind, perform_lift]
  cases hid : Dataset.checkId id with
  | error flaw => exact ⟨_, rfl, nofun⟩
  | ok _ =>
    simp only [Except.mapError]
    rw [perform_bind, perform_get]
    dsimp only
    split
    · exact ⟨_, rfl, nofun⟩
    · next hfree =>
      exact ⟨_, rfl, fun _ => ⟨trivial, by simpa [Store.contains] using hfree⟩⟩

/-- Whatever is refused is refused before anything is placed. -/
theorem add_cases (r : Registry) (d : Dataset) :
    (∃ e, r.perform (add d) = (.error e, r)) ∨
      d.Sound ∧ r.store.get? d.id = none ∧ r.perform (add d) = (.ok (r.adding d).ids, r.adding d) := by
  obtain ⟨outcome, hcheck, hok⟩ := perform_checkNew r d.id
  unfold add
  rw [perform_bind, hcheck]
  cases outcome with
  | error e => exact .inl ⟨e, rfl⟩
  | ok _ =>
    obtain ⟨hid, hfree⟩ := hok rfl
    dsimp only
    split
    · exact .inl ⟨_, rfl⟩
    · next hrows =>
      cases hmisfit : d.rows.findIdx? fun row => !row.conforms d.kind with
      | some index => exact .inl ⟨_, rfl⟩
      | none =>
        have hfit : ∀ row ∈ d.rows, row.conforms d.kind = true := by
          simpa using List.findIdx?_eq_none_iff.1 hmisfit
        have hinsert : r.store.insert d = .ok (r.adding d).store := by
          simp [Store.insert, Store.contains, hfree, adding]
        refine .inr ⟨⟨hid, by simpa using hrows, hfit⟩, hfree, ?_⟩
        rw [perform_bind, perform_get]
        dsimp only
        rw [perform_bind, perform_lift, hinsert]
        rfl

theorem addTree_cases (r : Registry) (id : String) (kind : Kind) (t : Tree) :
    (∃ e, r.perform (addTree id kind t) = (.error e, r)) ∨
      ∃ items, t = .array items ∧ r.perform (addTree id kind t) =
        r.perform (add ⟨id, kind, items.filterMap fun t => (Row.ofTree kind t).toOption⟩) := by
  obtain ⟨outcome, hcheck, hok⟩ := perform_checkNew r id
  unfold addTree
  rw [perform_bind, hcheck]
  cases outcome with
  | error e => exact .inl ⟨e, rfl⟩
  | ok _ =>
    obtain ⟨hid, -⟩ := hok rfl
    dsimp only
    rw [perform_bind, perform_lift]
    cases t with
    | array items =>
      refine .inr ⟨items, rfl, ?_⟩
      simp only [Row.manyOfTree, Except.mapError, Dataset.make, hid, ← Row.ofTrees_fst]
      rfl
    | _ => exact .inl ⟨_, rfl⟩

theorem perform_remove (r : Registry) (id : String) :
    r.perform (remove id) =
      match Dataset.checkId id, r.store.get? id with
      | .error flaw, _ => (.error (.invalidDataset flaw), r)
      | .ok _, none => (.error (.notFound id), r)
      | .ok _, some d => (.ok d, r.removing id) := by
  unfold remove
  rw [perform_bind, perform_lift]
  cases Dataset.checkId id with
  | error flaw => rfl
  | ok _ =>
    simp only [Except.mapError]
    rw [perform_bind, perform_get]
    dsimp only
    rw [perform_bind, perform_lift, Store.remove]
    cases r.store.get? id <;> rfl

theorem remove_of_get? {r : Registry} {id : String} {d : Dataset} (hid : Dataset.checkId id = .ok ())
    (hd : r.store.get? id = some d) : r.perform (remove id) = (.ok d, r.removing id) := by
  rw [perform_remove, hid, hd]

theorem remove_cases (r : Registry) (id : String) :
    (∃ e, r.perform (remove id) = (.error e, r)) ∨
      ∃ d, r.store.get? id = some d ∧ r.perform (remove id) = (.ok d, r.removing id) := by
  rw [perform_remove]
  cases Dataset.checkId id with
  | error flaw => exact .inl ⟨_, rfl⟩
  | ok _ =>
    cases r.store.get? id with
    | none => exact .inl ⟨_, rfl⟩
    | some d => exact .inr ⟨d, rfl, rfl⟩

end Request

/-- One use of a registry. -/
inductive Command where
  | add (d : Dataset)
  | addTree (id : String) (kind : Kind) (t : Tree)
  | remove (id : String)
  | query (q : Tree)

inductive Reply where
  | ids (ids : List String)
  | id (id : String)
  | records (trees : List Tree)

/-- The dataset that a command adds if it succeeds. -/
def Command.dataset? : Command → Option Dataset
  | add d => some d
  | addTree id kind (.array items) =>
    some ⟨id, kind, items.filterMap fun t => (Row.ofTree kind t).toOption⟩
  | _ => none

def Command.request : Command → Request Reply
  | add d => .ids <$> Request.add d
  | addTree id kind t => .ids <$> Request.addTree id kind t
  | remove id => (.id ·.id) <$> Request.remove id
  | query q => .records <$> Request.query q

namespace Context

theorem registerAll_eq (ctx : Context) (ds : List Dataset) :
    ctx.registerAll ds =
      { ctx with datasets := (ds.map fun d => (d.id, d)).foldl (fun es p => es.insert p.1 p.2) ctx.datasets } := by
  unfold registerAll
  induction ds generalizing ctx with
  | nil => rfl
  | cons d ds ih => exact ih (ctx.register d)

end Context

namespace Registry

/-- The registry after commands, failed ones included. -/
def after (r : Registry) (commands : List Command) : Registry :=
  commands.foldl (fun r command => (r.perform command.request).2) r

/-- Datasets are kept under their ids, and all are sound. -/
structure Sound (r : Registry) : Prop where
  filed : ∀ id d, (id, d) ∈ r.store.entries → d.id = id
  sound : ∀ id d, (id, d) ∈ r.store.entries → d.Sound

/-- From `r` to `s` one dataset comes in under a new id. The ids are then given in ascending order,
and removing the dataset leads back. -/
structure Added (r : Registry) (d : Dataset) (reply : Reply) (s : Registry) : Prop where
  was_absent : r.store.get? d.id = none
  get?_after : ∀ id, s.store.get? id = if id = d.id then some d else r.store.get? id
  cap_after : s.cap = r.cap
  reply_eq : reply = .ids s.ids
  ids_ascending : s.ids.Pairwise (· < ·)
  mem_ids : ∀ id, id ∈ s.ids ↔ (s.store.get? id).isSome = true
  undone : s.perform (Command.remove d.id).request = (.ok (.id d.id), r)

/-- From `r` to `s` the dataset of an id goes. -/
structure Removed (r : Registry) (id : String) (reply : Reply) (s : Registry) : Prop where
  was_present : (r.store.get? id).isSome = true
  get?_after : ∀ other, s.store.get? other = if other = id then none else r.store.get? other
  cap_after : s.cap = r.cap
  reply_eq : reply = .id id

/-- How a command with its outcome leads from `r` to `s`. -/
def Leads (r : Registry) : Command → Except Error Reply → Registry → Prop
  | _, .error _, s => s = r
  | .add d, .ok reply, s => Added r d reply s
  | .addTree id kind t, .ok reply, s =>
    ∃ items, t = .array items ∧
      Added r ⟨id, kind, items.filterMap fun t => (Row.ofTree kind t).toOption⟩ reply s
  | .remove id, .ok reply, s => Removed r id reply s
  | .query _, .ok _, s => s = r

theorem Sound.kept_of_get? {r : Registry} (h : r.Sound) {id : String} {d : Dataset}
    (hd : r.store.get? id = some d) : d.id = id ∧ d.Sound :=
  ⟨h.filed id d (Entries.mem_of_lookup hd), h.sound id d (Entries.mem_of_lookup hd)⟩

theorem Sound.adding {r : Registry} (h : r.Sound) {d : Dataset} (hd : d.Sound) : (r.adding d).Sound := by
  refine ⟨fun id e he => ?_, fun id e he => ?_⟩
  · rcases Entries.mem_place he with heq | he
    · obtain ⟨rfl, rfl⟩ := Prod.mk.inj heq
      rfl
    · exact h.filed id e he
  · rcases Entries.mem_place he with heq | he
    · obtain ⟨rfl, rfl⟩ := Prod.mk.inj heq
      exact hd
    · exact h.sound id e he

theorem Sound.removing {r : Registry} (h : r.Sound) (id : String) : (r.removing id).Sound :=
  ⟨fun n d hd => h.filed n d (List.mem_of_mem_eraseP hd), fun n d hd => h.sound n d (List.mem_of_mem_eraseP hd)⟩

/-- Queries are answered from the datasets as they are stored. -/
theorem Sound.context_eq {r : Registry} (h : r.Sound) : r.context = ⟨r.store.entries, r.cap⟩ := by
  have hentries : (r.store.datasets.map fun d => (d.id, d)) = r.store.entries := by
    unfold Store.datasets
    rw [List.map_map]
    refine (List.map_congr_left fun e he => ?_).trans (List.map_id _)
    obtain ⟨id, d⟩ := e
    exact Prod.ext (h.filed id d he) rfl
  unfold context
  rw [Context.registerAll_eq, hentries]
  exact congrArg (Context.mk · r.cap) (Entries.ofList_of_nodup r.store.nodup_keys)

/-- Summaries are listed by the keys of their datasets. -/
theorem Sound.summaries_ascending {r : Registry} (h : r.Sound) :
    r.summaries.Pairwise fun x y => x.id < y.id := by
  have hids : r.summaries.map Summary.id = r.ids := by
    simp only [summaries, Store.datasets, ids, Store.ids, Entries.keys, List.map_map]
    exact List.map_congr_left fun p hp => h.filed p.1 p.2 hp
  have hascending : r.ids.Pairwise (· < ·) := r.store.ascending
  rw [← hids] at hascending
  exact List.pairwise_map.1 hascending

theorem added {r : Registry} {d : Dataset} (hd : d.Sound) (hfree : r.store.get? d.id = none) :
    Added r d (.ids (r.adding d).ids) (r.adding d) := by
  have hget := r.store.get?_placing d
  have hback : (r.adding d).removing d.id = r := by
    unfold removing adding
    simp only [Store.without_placing hfree]
  refine ⟨hfree, hget, rfl, rfl, (r.adding d).store.ascending, fun id => ?_, ?_⟩
  · exact (Entries.isSome_lookup_iff ..).symm
  · have hthere : (r.adding d).store.get? d.id = some d := (hget d.id).trans (if_pos rfl)
    rw [Command.request, perform_map, Request.remove_of_get? hd.id_checked hthere, hback]
    rfl

/-- What one command does. -/
theorem Sound.step {r : Registry} (h : r.Sound) (command : Command) :
    Leads r command (r.perform command.request).1 (r.perform command.request).2 ∧
      (r.perform command.request).2.Sound := by
  cases command with
  | add d =>
    rw [Command.request, perform_map]
    rcases Request.add_cases r d with ⟨e, he⟩ | ⟨hd, hfree, hadd⟩
    · rw [he]
      exact ⟨rfl, h⟩
    · rw [hadd]
      exact ⟨added hd hfree, h.adding hd⟩
  | addTree id kind t =>
    rw [Command.request, perform_map]
    rcases Request.addTree_cases r id kind t with ⟨e, he⟩ | ⟨items, rfl, hsame⟩
    · rw [he]
      exact ⟨rfl, h⟩
    · rw [hsame]
      rcases Request.add_cases r _ with ⟨e, he⟩ | ⟨hd, hfree, hadd⟩
      · rw [he]
        exact ⟨rfl, h⟩
      · rw [hadd]
        exact ⟨⟨items, rfl, added hd hfree⟩, h.adding hd⟩
  | remove id =>
    rw [Command.request, perform_map]
    rcases Request.remove_cases r id with ⟨e, he⟩ | ⟨d, hd, hremove⟩
    · rw [he]
      exact ⟨rfl, h⟩
    · rw [hremove]
      refine ⟨⟨by rw [hd]; rfl, r.store.get?_without id, rfl, ?_⟩, h.removing id⟩
      exact congrArg Reply.id (h.kept_of_get? hd).1
  | query q =>
    rw [Command.request, perform_map]
    have hquery : r.perform (Request.query q) = (r.answer q, r) := rfl
    rw [hquery]
    cases r.answer q <;> exact ⟨rfl, h⟩

theorem Sound.after {r : Registry} (h : r.Sound) (commands : List Command) : (r.after commands).Sound := by
  induction commands generalizing r with
  | nil => exact h
  | cons command rest ih => exact ih (h.step command).2

theorem Leads.cap_eq {r s : Registry} {command : Command} {outcome : Except Error Reply}
    (h : Leads r command outcome s) : s.cap = r.cap := by
  cases outcome with
  | error e => exact congrArg Registry.cap h
  | ok reply =>
    cases command with
    | add d => exact Added.cap_after h
    | addTree id kind t =>
      obtain ⟨items, -, hadded⟩ := h
      exact hadded.cap_after
    | remove id => exact Removed.cap_after h
    | query q => exact congrArg Registry.cap h

/-- Nothing is held but what was held before or has just been added. -/
theorem Leads.get?_eq_some {r s : Registry} {command : Command} {outcome : Except Error Reply}
    (h : Leads r command outcome s) {id : String} {d : Dataset} (hd : s.store.get? id = some d) :
    r.store.get? id = some d ∨ command.dataset? = some d := by
  have hadded {e : Dataset} {reply : Reply} (hadded : Added r e reply s) :
      r.store.get? id = some d ∨ some e = some d := by
    rw [hadded.get?_after] at hd
    split at hd
    · exact .inr hd
    · exact .inl hd
  cases outcome with
  | error e =>
    obtain rfl : s = r := h
    exact .inl hd
  | ok reply =>
    cases command with
    | add e => exact hadded h
    | addTree id kind t =>
      obtain ⟨items, rfl, h⟩ := h
      exact hadded h
    | remove id =>
      rw [Removed.get?_after h] at hd
      split at hd
      · cases hd
      · exact .inl hd
    | query q =>
      obtain rfl : s = r := h
      exact .inl hd

theorem Sound.get?_after {r : Registry} (h : r.Sound) {commands : List Command} {id : String} {d : Dataset}
    (hd : (r.after commands).store.get? id = some d) :
    r.store.get? id = some d ∨ ∃ command ∈ commands, command.dataset? = some d := by
  induction commands generalizing r with
  | nil => exact .inl hd
  | cons command rest ih =>
    obtain ⟨hleads, hnext⟩ := h.step command
    rcases ih hnext hd with hheld | ⟨later, hlater, hadds⟩
    · rcases hleads.get?_eq_some hheld with hbefore | hadds
      · exact .inl hbefore
      · exact .inr ⟨command, List.mem_cons_self .., hadds⟩
    · exact .inr ⟨later, List.mem_cons_of_mem _ hlater, hadds⟩

theorem Sound.cap_after {r : Registry} (h : r.Sound) (commands : List Command) :
    (r.after commands).cap = r.cap := by
  induction commands generalizing r with
  | nil => rfl
  | cons command rest ih =>
    obtain ⟨hleads, hnext⟩ := h.step command
    exact (ih hnext).trans hleads.cap_eq

theorem sound_of_new (cap : ℕ) : ({ cap } : Registry).Sound :=
  ⟨fun _ _ h => absurd h List.not_mem_nil, fun _ _ h => absurd h List.not_mem_nil⟩

/-- A registry is sound at every time of its use, and no command does more than it should. -/
theorem after_sound_and_leads (cap : ℕ) (commands : List Command) :
    let r := ({ cap } : Registry).after commands
    r.ids.Pairwise (· < ·) ∧ r.Sound ∧ (r.summaries.Pairwise fun x y => x.id < y.id) ∧
      ∀ command, Leads r command (r.perform command.request).1 (r.perform command.request).2 := by
  have hsound := (sound_of_new cap).after commands
  exact ⟨Store.ascending _, hsound, hsound.summaries_ascending, fun command => (hsound.step command).1⟩

end Registry

end CampusQuery
