import InkPreview.Proofs.Live.Turn
/-!
Every step of the running task that is not one of a request's own steps, an edit or a closing leads
to one of the landings of `Turn`, function by function. Main statement: `move_leads`.
-/
namespace InkPreview.Live
namespace World
variable {w : World} {t n : TaskId} {fs : List Frame}

/-! ### What the operations lead to: compiling -/

theorem conclude_leads (o : Outcome) :
    w.Leads t (fun l => l = .go fs (.value (.outcome o))) (w.conclude t fs o) := by
  unfold conclude
  cases o with
  | success _ => exact .alike (.count w _) (.ret rfl)
  | failed _ _ => exact .alike (.countBy w _ _ _) (.ret rfl)

theorem readOutcome_leads (p : ProcessId) :
    w.Leads t (fun l => ∃ o, l = .go fs (.value (.outcome o))) (w.readOutcome t fs p) := by
  unfold readOutcome
  split
  · exact .alike (.noteRun w _) ((conclude_leads _).imp fun _ h => ⟨_, h⟩)
  · exact (conclude_leads _).imp fun _ h => ⟨_, h⟩

theorem reaped_leads (p : ProcessId) (why : KillReason) :
    w.Leads t (Killed p why fs) (w.reaped t fs why) := by
  unfold reaped
  cases why with
  | timedOut =>
    refine .alike (.note w _) ((conclude_leads _).imp ?_)
    rintro _ rfl
    exact .timedOut rfl
  | cancelled => exact .alike (.note w _) (.unwind (.cancelled rfl))

theorem kill_leads {p : ProcessId} (why : KillReason) (tends : w.Tends t p .killed) :
    w.Leads t (Killed p why fs) (w.kill t fs p why) := by
  unfold kill
  split
  · refine .aside (.process w tends) (.alike (.emit _ (.killed w.clock p)) ?_)
    dsimp only
    split
    · exact reaped_leads p why
    · split
      · exact .alike (.emit _ _) (reaped_leads p why)
      · exact .sleep .turn fun _ => .timed
  · exact reaped_leads p why

theorem limitedWaitOver_leads {p : ProcessId} {f : TaskId} (why : KillReason) (h : w.Follows t f)
    (tends : w.Tends t p .killed) :
    w.Leads t (fun l => (∃ o, l = .go fs (.value (.outcome o))) ∨
      w.wasCancelled f = true ∧ Killed p .cancelled fs l ∨ why = .cancelled ∧ l = .go fs .cancelled ∨
      l = .park (.stoppingFollower p why :: fs) (.follower f))
      (w.limitedWaitOver t fs p f why) := by
  unfold limitedWaitOver
  split
  · split
    · rename_i stopped
      exact (kill_leads .cancelled tends).imp fun _ killed => .inr (.inl ⟨stopped, killed⟩)
    · split
      · rename_i heeded
        simp only [Bool.and_eq_true, decide_eq_true_eq] at heeded
        exact .alike (.note w _) (.unwind (.inr (.inr (.inl ⟨heeded.2, rfl⟩))))
      · exact (readOutcome_leads p).imp fun _ => .inl
  · show w.Leads t _ ((w.stopped t f).park t (.stoppingFollower p why :: fs) (.follower f))
    exact .aside (.stop w f h) (.park (.inr (.inr (.inr rfl))))

theorem processExited_leads {p : ProcessId} (tends : w.Tends t p .exited) :
    w.Leads t (fun l => l = .go fs (.value .unit)) (w.processExited t fs p) := by
  unfold processExited
  split
  · exact .aside (.process w tends) (.alike (.emit _ _) (.ret rfl))
  · exact .ret rfl

theorem awaitProcess_leads (p : ProcessId) (text : String) :
    w.Leads t ((Op.compile text).Lands w.tasks.length fs) (w.awaitProcess t fs p) := by
  unfold awaitProcess
  dsimp only
  split
  · exact .call (.opens .compile)
  · split
    · show w.Leads t _ (((w.spawn (.follow p) fun f => [.report t f]).2.stopped t w.tasks.length).park t
        (.stoppingFollower p .timedOut :: fs) (.follower w.tasks.length))
      exact .aside (.forestall w p) (.park (.waits .compile))
    · exact .aside (.follow w p) (.timed (.limited rfl))

theorem invoke_leads (executable : Option String) {text : String}
    (running : w.current = some (t, fs, .start (.compile text))) :
    w.Leads t ((Op.compile text).Lands w.tasks.length fs) (w.invoke t fs executable text) := by
  have concluded : ∀ (v : World) (o : Outcome),
      v.Leads t ((Op.compile text).Lands w.tasks.length fs) (v.conclude t fs o) := by
    intro v o
    refine (conclude_leads o).imp ?_
    rintro _ rfl
    exact .answers .compiled
  unfold invoke
  split
  · exact .ret (.answers .compiled)
  · refine .alike (.count w "compile.started") ?_
    dsimp only
    split
    · exact .ret (.answers .compiled)
    · exact .fail (.answers .crashed)
    · split
      · exact .alike (.note _ _) (concluded _ _)
      · exact .fail (.answers .crashed)
      · exact .aside (.launch _ ⟨_, text, t, .alive⟩ rfl running rfl)
          (.alike (.emit _ _) (awaitProcess_leads _ text))

theorem beginCompile_leads {text : String}
    (running : w.current = some (t, fs, .start (.compile text))) :
    w.Leads t ((Op.compile text).Lands w.tasks.length fs) (w.beginCompile t fs text) := by
  have noted := Alike.noteAll w w.finder.notes
  unfold beginCompile
  refine .alike noted ?_
  dsimp only
  split
  · exact .fail (.answers .crashed)
  · rw [← noted.tasks]
    exact invoke_leads _ (noted.current.trans running)

theorem beginFollow_leads {p : ProcessId} (running : w.current = some (t, fs, .start (.follow p))) :
    w.Leads t ((Op.follow p).Lands n fs) (w.beginFollow t fs p) := by
  unfold beginFollow
  split
  · split
    · refine (processExited_leads (.follows running)).imp ?_
      rintro _ rfl
      exact .answers .follow
    · exact .sleep (.turn .follow) fun _ => .timed .follow
  · exact .ret (.answers .follow)

/-! ### Waiting and exporting -/

theorem lt_of_not_ended {u : TaskId} (h : w.hasEnded u = false) : u < w.tasks.length := by
  cases found : w.tasks[u]? with
  | none => simp [hasEnded, found] at h
  | some k => exact (List.getElem?_eq_some_iff.1 found).1

theorem awaitIdle_leads {s : SlotId} {gs : List Frame} {sig : Signal} (running : w.current = some (t, gs, sig))
    (idles : (∃ doc, sig = .start (.waitIdle doc) ∧ w.slotOf? doc = some s) ∨ sig.IsEnd ∧ ∃ rest, gs = .idling s :: rest) :
    w.Leads t (fun l => l = .go fs (.value .unit) ∨ ∃ g, l = .park (.idling s :: fs) (.group g))
      (w.awaitIdle t fs s) := by
  unfold awaitIdle
  dsimp only
  split
  · exact .ret (.inl rfl)
  · rename_i some
    refine .gather (fun u mem => ?_) (.idles running idles fun u mem => ?_) (fun none => absurd (List.isEmpty_iff.2 none) some)
      fun g => .inr ⟨g, rfl⟩
    · exact lt_of_not_ended (by simpa using (List.mem_filter.1 mem).2)
    · exact (List.mem_filter.1 mem).1

theorem beginWaitIdle_leads {doc : DocId} (running : w.current = some (t, fs, .start (.waitIdle doc))) :
    w.Leads t ((Op.waitIdle doc).Lands n fs) (w.beginWaitIdle t fs doc) := by
  unfold beginWaitIdle
  split
  · exact .ret (.answers .waitIdle)
  · rename_i registered
    refine (awaitIdle_leads running (.inl ⟨doc, rfl, registered⟩)).imp ?_
    rintro _ (rfl | ⟨g, rfl⟩)
    · exact .answers .waitIdle
    · exact .waits .waitIdle

theorem closeNext_leads (docs : List DocId) :
    w.Leads t (fun l => l = .go fs (.value .unit) ∨
      ∃ rest doc, l = .go (.closingAll rest :: fs) (.start (.close doc)))
      (w.closeNext t fs docs) := by
  cases docs with
  | nil => exact .alike (.note w _) (.ret (.inl rfl))
  | cons doc rest => exact .call (.inr ⟨rest, doc, rfl⟩)

theorem beginExport_leads (doc text : String) (kind : ExportKind) (title : Option String) :
    w.Leads t ((Op.exportAs doc text kind title).Lands n fs)
      (w.beginExport t fs doc text kind title) := by
  unfold beginExport
  split
  · exact .alike (.countBy w _ _ _) (.ret (.answers .exportAs))
  · exact .call (.opens .exportAs)

/-- The frames below go on with what has come out. -/
inductive Pops (fs : List Frame) : Landing → Prop
  | value (v : Value) : Pops fs (.go fs (.value v))
  | fault (f : Fault) : Pops fs (.go fs (.fault f))

theorem exportCompiled_leads (doc : String) (kind : ExportKind) (title : Option String) (v : Value) :
    w.Leads t (Pops fs) (w.exportCompiled t fs doc kind title v) := by
  unfold exportCompiled
  split
  · exact .alike (.trans (.countBy w _ _ _) (.note _ _)) (.ret (.value _))
  · exact .alike (.trans (.countBy w _ _ _) (.note _ _)) (.fail (.fault _))
  · exact .ret (.value _)

/-! ### Messages -/

theorem refuse_leads (c : ClientId) (reason data : String) :
    w.Leads t ((Op.handle c data).Lands n fs) (w.refuse t fs c reason) :=
  .alike (.note w _) (.call (.opens .replied))

theorem closeUnnamed_leads {c : ClientId} (doc : Json) (typeName : String) {data : String} {gs : List Frame}
    (running : w.current = some (t, gs, .start (.handle c data))) :
    w.Leads t ((Op.handle c data).Lands n fs) (w.closeUnnamed t fs c doc typeName) := by
  unfold closeUnnamed
  split
  · exact .aside (.files w running trivial w.library _) (.call (.opens .replied))
  · exact .fail (.answers .handle)

theorem ask_leads {c : ClientId} (a : Web.Ask) {data : String} {gs : List Frame}
    (running : w.current = some (t, gs, .start (.handle c data))) :
    w.Leads t ((Op.handle c data).Lands n fs) (w.ask t fs c a) := by
  cases a with
  | edit doc text =>
    simp only [ask]
    split
    · exact .fail (.answers .handle)
    · exact .aside (.files w running trivial _ w.metrics) (.call (.opens .edited))
  | view doc =>
    simp only [ask]
    split
    · exact .fail (.answers .handle)
    · split
      · exact .call (.opens .viewed)
      · exact refuse_leads c _ data
  | close doc =>
    simp only [ask]
    split
    · split
      · exact closeUnnamed_leads doc _ running
      · exact .call (.opens .closed)
    · exact .call (.opens .replied)
  | snippet s => exact .call (.opens .replied)
  | refused reason => exact refuse_leads c reason data

theorem beginHandle_leads {c : ClientId} {data : String} {gs : List Frame}
    (running : w.current = some (t, gs, .start (.handle c data))) :
    w.Leads t ((Op.handle c data).Lands n fs) (w.beginHandle t fs c data) := by
  unfold beginHandle
  split
  · exact .fail (.answers .handle)
  · exact ask_leads _ running

/-! ### Clients -/

theorem transmit_leads (c : ClientId) (m : Web.Message) :
    w.Leads t (fun l => l = .go fs (.value .unit) ∨ ∃ f, l = .go fs (.fault f))
      (w.transmit t fs c m) := by
  unfold transmit
  split
  · exact .fail (.inr ⟨_, rfl⟩)
  · split
    · exact .alike (.emit w _) (.ret (.inl rfl))
    · rename_i k found _ broken
      have still : ¬ w.IsParted c := by simp [IsParted, found, broken]
      exact .alike (.setLink w c (.inr still)) (.fail (.inr ⟨_, rfl⟩))
    · exact .fail (.inr ⟨_, rfl⟩)
    · exact .fail (.inr ⟨_, rfl⟩)

theorem beginSend_leads (c : ClientId) (m : Web.Message) :
    w.Leads t ((Op.send c m).Lands n fs) (w.beginSend t fs c m) := by
  have sent : ∀ v : World, v.Leads t ((Op.send c m).Lands n fs) (v.transmit t fs c m) := by
    intro v
    refine (transmit_leads c m).imp ?_
    rintro _ (rfl | ⟨f, rfl⟩)
    · exact .answers .sent
    · exact .answers .notSent
  unfold beginSend
  split
  · exact sent w
  · refine .alike (.modifyConnection w c (fun k => { k with sends := k.sends + 1 }) fun _ _ => id) ?_
    dsimp only
    split
    · exact sent _
    · exact .sleep (.turn .send) fun _ => .timed .send

theorem broadcastNext_leads (m : Web.Message) (cs : List ClientId) :
    w.Leads t (fun l => l = .go fs (.value .unit) ∨
      ∃ c rest, l = .go (.broadcasting m (some c) rest :: fs) (.start (.send c m)))
      (w.broadcastNext t fs m cs) := by
  cases cs with
  | nil => exact .ret (.inl rfl)
  | cons c rest => exact .call (.inr ⟨c, rest, rfl⟩)

theorem leave_leads (c : ClientId) :
    w.Leads t (fun l => l = .go fs (.value .unit)) (w.leave t fs c) :=
  .alike (.trans (.dropClient w c) (.setLink _ c (.inl rfl))) (.ret rfl)

theorem breakOff_leads (c : ClientId) (f : Fault) :
    w.Leads t (fun l => l = .go fs (.value .unit)) (w.breakOff t fs c f) :=
  .alike (.trans (.setLink w c (.inl rfl)) (.emit _ _)) (.ret rfl)

/-- What comes of taking a client's next message. -/
def Receives (c : ClientId) (fs : List Frame) (l : Landing) : Prop :=
  l = .go fs (.value .unit) ∨ l = .park (.receiving c :: fs) (.message c) ∨
    ∃ data, l = .go (.serving c :: fs) (.start (.handle c data))

theorem receive_leads (c : ClientId) : w.Leads t (Receives c fs) (w.receive t fs c) := by
  unfold receive
  split
  · exact .ret (.inl rfl)
  · split
    · exact (breakOff_leads c _).imp fun _ => .inl
    · split
      · exact .park (.inr (.inl rfl))
      · rename_i rest _
        refine .alike (.setInbox w c rest) ?_
        dsimp only
        split
        · exact .call (.inr (.inr ⟨_, rfl⟩))
        · exact (leave_leads c).imp fun _ => .inl

theorem received_leads (c : ClientId) : w.Leads t (Receives c fs) (w.received t fs c) := by
  unfold received
  split
  · exact .alike (.setInbox w c _) (.call (.inr (.inr ⟨_, rfl⟩)))
  · exact .alike (.setInbox w c _) ((leave_leads c).imp fun _ => .inl)
  · exact .park (.inr (.inl rfl))

theorem handlingFailed_leads (c : ClientId) (f : Fault) :
    w.Leads t (fun l => l = .go fs (.value .unit)) (w.handlingFailed t fs c f) := by
  unfold handlingFailed
  split
  · exact leave_leads c
  · exact breakOff_leads c f

/-! ### Requests -/

theorem takeRoute_leads {r : Web.Request} (route : Web.Route) {gs : List Frame}
    (running : w.current = some (t, gs, .start (.request r))) :
    w.Leads t ((Op.request r).Lands n fs) (w.takeRoute t (.answering :: fs) r route) := by
  have answered : ∀ (v : World) (a : Web.Response),
      v.Leads t ((Op.request r).Lands n fs) (v.respond t (.answering :: fs) a) :=
    fun v a => .ret (.answers .request)
  unfold takeRoute
  split
  · exact answered w _
  · exact answered w _
  · split
    · exact answered w _
    · split
      · exact .aside (.files w running trivial _ w.metrics) (.call (.opens .requestEdit))
      · exact answered w _
  · split
    · exact answered w _
    · split
      · exact .aside (.files w running trivial _ w.metrics) (.call (.opens .requestEdit))
      · exact answered w _
  · exact answered w _
  · split
    · unfold exportDocument
      split
      · exact answered w _
      · exact .call (.opens .requestExport)
    · exact answered w _
  · exact answered w _
  · exact answered w _

theorem beginRequest_leads {r : Web.Request} {gs : List Frame}
    (running : w.current = some (t, gs, .start (.request r))) :
    w.Leads t ((Op.request r).Lands n fs) (w.beginRequest t fs r) := by
  unfold beginRequest
  split
  · exact .ret (.answers .refused)
  · exact takeRoute_leads _ running

theorem editAnswered_leads (doc title : String) (v : Value) :
    w.Leads t (Pops fs) (w.editAnswered t fs doc title v) := by
  unfold editAnswered
  split
  · exact .ret (.value _)
  · exact .ret (.value _)

theorem exportAnswered_leads (v : Value) :
    w.Leads t (Pops fs) (w.exportAnswered t fs v) := by
  unfold exportAnswered
  split
  · exact .ret (.value _)
  · exact .ret (.value _)

theorem exportRefused_leads (f : Fault) :
    w.Leads t (Pops fs) (w.exportRefused t fs f) := by
  unfold exportRefused
  split
  · exact .ret (.value _)
  · exact .fail (.fault _)

/-! ### Telling subscribers -/

theorem act_leads (i : Nat) (u : Update) (todo : List Action) :
    w.Leads t (Acted i u todo fs) (w.act t fs i u todo) := by
  induction todo generalizing w with
  | nil => exact .ret .through
  | cons a rest ih =>
    have shorter : rest <:+ a :: rest := List.suffix_cons a rest
    cases a with
    | wait micros => exact .sleep (.turn shorter) fun _ => .timed shorter
    | edit text => exact .call (.edits shorter (by simp))
    | close => exact .call (.closes shorter (by simp))
    | ask op => exact .call (.asks shorter (by simp))
    | fail m => exact .fail .fails
    | skip howMany => exact .ret (.skips ((List.drop_suffix _ rest).trans shorter))
    | report =>
      simp only [act]
      refine .alike (.emit w (.slowDone w.clock i)) (ih.imp ?_)
      intro l h
      cases h with
      | through => exact .through
      | fails => exact .fails
      | turn h => exact .turn (h.trans shorter)
      | timed h => exact .timed (h.trans shorter)
      | edits h mem => exact .edits (h.trans shorter) (by simp [mem])
      | closes h mem => exact .closes (h.trans shorter) (by simp [mem])
      | asks h mem => exact .asks (h.trans shorter) (by simp [mem])
      | skips h => exact .skips (h.trans shorter)

theorem tellNext_leads {u : Update} {js : List Nat} {s : Signal}
    (running : w.current = some (t, .notifying u js :: fs, s)) (ends : s.IsEnd) :
    w.Leads t (Told w u fs js) (w.tellNext t fs u js) := by
  cases js with
  | nil => exact .ret .through
  | cons i rest =>
    simp only [tellNext]
    split
    · rename_i current
      unfold tell
      refine .aside (.call w running ends current ((w.calls[i]?).getD 0 + 1)) ?_
      dsimp only
      split
      · rename_i acts mem
        exact .alike (.emit _ _) ((act_leads i u _).imp fun _ => .script current mem)
      · rename_i mem
        exact .ret (.clients current mem)
      · rename_i mem
        exact .ret (.nobody current mem)
    · rename_i stale
      exact .ret (.stale (by simpa using stale))

/-! ### The turn -/

theorem spawnAll_aside {all : List Op} (running : w.current = some (t, fs, .start (.together all))) (ops : List Op)
    (h : ∀ op ∈ ops, op ∈ all ∧ op.IsPublic) (ts : List TaskId) :
    Relation.ReflTransGen (Aside t) w (ops.foldl
      (fun (acc : List TaskId × World) op =>
        let (b, w) := acc.2.spawn op fun _ => []
        (acc.1 ++ [b], w)) (ts, w)).2 := by
  induction ops generalizing w ts with
  | nil => exact .refl
  | cons op rest ih =>
    obtain ⟨mem, given⟩ := h op (by simp)
    refine .head (.spawn w running mem given) ?_
    exact ih (w := (w.spawn op fun _ => []).2) running (fun o ho => h o (List.mem_cons_of_mem op ho)) _

/-- Whatever is started side by side is new, and is there afterwards; the slots are as they were. -/
theorem spawnAll_new (ops : List Op) (ts : List TaskId) :
    let all := ops.foldl (fun (acc : List TaskId × World) op =>
      let (b, w) := acc.2.spawn op fun _ => []
      (acc.1 ++ [b], w)) (ts, w)
    all.2.slots = w.slots ∧ w.tasks.length ≤ all.2.tasks.length ∧
      ∀ u ∈ all.1, u ∈ ts ∨ w.tasks.length ≤ u ∧ u < all.2.tasks.length := by
  induction ops generalizing w ts with
  | nil => exact ⟨rfl, Nat.le_refl _, fun u mem => .inl mem⟩
  | cons op rest ih =>
    have more : (w.spawn op fun _ => []).2.tasks.length = w.tasks.length + 1 := List.length_append
    obtain ⟨slots, le, mem⟩ := ih (w := (w.spawn op fun _ => []).2) (ts ++ [w.tasks.length])
    rw [more] at le mem
    refine ⟨slots, Nat.le_of_succ_le le, fun u among => ?_⟩
    rcases mem u among with before | ⟨late, there⟩
    · rcases List.mem_append.1 before with old | new
      · exact .inl old
      · rw [List.mem_singleton.1 new]
        exact .inr ⟨Nat.le_refl _, le⟩
    · exact .inr ⟨Nat.le_of_succ_le late, there⟩

theorem Leads.asides {u v : World} {P : Landing → Prop} (h : Relation.ReflTransGen (Aside t) w u)
    (next : u.Leads t P v) : w.Leads t P v := by
  obtain ⟨x, l, hx, hl, rfl⟩ := next
  exact ⟨x, l, h.trans hx, hl, rfl⟩

theorem beginTogether_leads {ops : List Op} (running : w.current = some (t, fs, .start (.together ops)))
    (h : ∀ op ∈ ops, op.IsPublic) (listed : ∀ x, ∀ u ∈ w.tasksOf x, u < w.tasks.length) :
    w.Leads t ((Op.together ops).Lands n fs) (w.beginTogether t fs ops) := by
  obtain ⟨slots, -, mem⟩ := spawnAll_new (w := w) ops []
  unfold beginTogether
  refine .asides (spawnAll_aside running ops (fun op mem => ⟨mem, h op mem⟩) []) (.gather ?_ (.starts ?_) ?_ fun g => .waits .together)
  · exact fun u among => ((mem u among).resolve_left nofun).2
  · intro u among x works
    rw [tasksOf, slots] at works
    exact Nat.not_lt.2 ((mem u among).resolve_left nofun).1 (listed x u works)
  · intro none
    dsimp only at none ⊢
    rw [none]
    exact .answers .together

theorem begin_leads {op : Op} (running : w.current = some (t, fs, .start op)) (given : op.IsGiven)
    (notEdit : ∀ doc text, op ≠ .edit doc text) (notClose : ∀ doc, op ≠ .close doc)
    (listed : ∀ x, ∀ u ∈ w.tasksOf x, u < w.tasks.length) :
    w.Leads t (op.Lands w.tasks.length fs) (w.begin t fs op) := by
  rcases given with given | ⟨p, rfl⟩
  · cases given with
    | edit doc text => exact absurd rfl (notEdit doc text)
    | close doc => exact absurd rfl (notClose doc)
    | waitIdle doc => exact beginWaitIdle_leads running
    | closeAll =>
      refine (closeNext_leads w.openDocs).imp ?_
      rintro _ (rfl | ⟨rest, doc, rfl⟩)
      · exact .answers .closeAll
      · exact .opens .closeAll
    | stop => exact .call (.opens .stop)
    | compile text => exact beginCompile_leads running
    | exportAs doc text kind title => exact beginExport_leads doc text kind title
    | handle c data => exact beginHandle_leads running
    | converse c =>
      refine .alike (.clients w fun other => absurd running (other _ _ _)) ((receive_leads c).imp ?_)
      rintro _ (rfl | rfl | ⟨data, rfl⟩)
      · exact .answers .converse
      · exact .waits .converse
      · exact .opens .converse
    | send c m => exact beginSend_leads c m
    | request r => exact beginRequest_leads running
    | sleep micros => exact .sleep (.turn .sleep) fun _ => .timed .sleep
    | together h => exact beginTogether_leads running h listed
    | reportedEdit doc text => exact .call (.opens .reportedEdit)
  · exact beginFollow_leads running

theorem Pops.turn {f : Frame} {s : Signal} {l : Landing} (h : Pops fs l) (plain : f.IsPlain)
    (hs : s.IsEnd) : Turn w (f :: fs) s l := by
  cases h with
  | value v => exact .pops plain hs trivial nofun
  | fault f => exact .pops plain hs trivial nofun

/-- What a client's next message makes of a frame that awaits it. -/
theorem Receives.turn {c : ClientId} {f : Frame} {s : Signal} {l : Landing} (h : Receives c fs l)
    (hf : f = .serving c ∨ f = .receiving c) (hs : s.IsEnd) : Turn w (f :: fs) s l := by
  rcases h with rfl | rfl | ⟨data, rfl⟩
  · rcases hf with rfl | rfl
    · exact .pops trivial hs trivial nofun
    · exact .pops trivial hs trivial nofun
  · rcases hf with rfl | rfl
    · exact .waits hs .serving
    · exact .waits hs .receiving
  · rcases hf with rfl | rfl
    · exact .opens hs .serving
    · exact .opens hs .receiving

theorem proceed_leads {f : Frame} (v : Value)
    (running : w.current = some (t, f :: fs, .value v)) (plain : f.request? = none) :
    w.Leads t (Turn w (f :: fs) (.value v)) (w.proceed t fs v f) := by
  have ended : (Signal.value v).IsEnd := trivial
  have pops : ∀ {x : World} {f : Frame} {s : Signal}, f.IsPlain → s.IsEnd → s ≠ .cancelled →
      x.Leads t (Turn w (f :: fs) (.value v)) (x.go t fs s) :=
    fun plain hs calm => .go (.pops plain ended hs fun eq => absurd eq calm)
  cases f with
  | issued g => exact pops trivial trivial nofun
  | notifying u rest => exact (tellNext_leads running ended).imp fun _ => .told ended (by simp)
  | acting i u rest => exact (act_leads i u rest).imp fun _ => .acted
  | broadcasting m c rest =>
    refine (broadcastNext_leads m rest).imp ?_
    rintro _ (rfl | ⟨c', rest', rfl⟩)
    · exact .pops trivial trivial trivial nofun
    · exact .opens ended .broadcasting
  | quiet r => cases plain
  | queueing r => cases plain
  | holding r => cases plain
  | running p =>
    refine (readOutcome_leads p).imp ?_
    rintro _ ⟨o, rfl⟩
    exact .ran
  | limited p follower =>
    refine (limitedWaitOver_leads .timedOut ⟨p, fs, _, running⟩ (.kills running ended rfl)).imp ?_
    rintro _ (⟨o, rfl⟩ | ⟨stopped, killed⟩ | ⟨⟨⟩, -⟩ | rfl)
    · exact .waited trivial
    · exact .lost trivial stopped killed
    · exact .late
  | stoppingFollower p why => exact (kill_leads why (.kills running ended rfl)).imp fun _ => .killed
  | following p =>
    refine (processExited_leads (.followed running)).imp ?_
    rintro _ rfl
    exact .pops trivial trivial trivial nofun
  | reaping p why =>
    exact .alike (.emit w (.reaped w.clock p)) ((reaped_leads p why).imp fun _ => .reaped)
  | closing doc n =>
    cases doc with
    | name name => exact .alike (.note w _) (pops trivial trivial nofun)
    | number n => exact pops trivial trivial nofun
    | truth b => exact pops trivial trivial nofun
  | idling s =>
    refine (awaitIdle_leads running (.inr ⟨trivial, _, rfl⟩)).imp ?_
    rintro _ (rfl | ⟨g, rfl⟩)
    · exact .pops trivial trivial trivial nofun
    · exact .waits ended .idling
  | closingAll rest =>
    refine (closeNext_leads rest).imp ?_
    rintro _ (rfl | ⟨rest', doc, rfl⟩)
    · exact .pops trivial trivial trivial nofun
    · exact .opens ended .closingAll
  | stopping => exact .alike (.note w .componentsStopped) (pops trivial trivial nofun)
  | exporting doc kind title =>
    exact (exportCompiled_leads doc kind title v).imp fun _ h => h.turn trivial trivial
  | acknowledging c doc =>
    cases v with
    | generation g => exact .call (.opens ended .acknowledging)
    | unit | outcome _ | exported _ | response _ | several _ => exact pops trivial trivial nofun
  | confirming c doc => exact .call (.opens ended .confirming)
  | serving c => exact (receive_leads c).imp fun _ h => h.turn (.inl rfl) trivial
  | receiving c => exact (received_leads c).imp fun _ h => h.turn (.inr rfl) trivial
  | sending c m =>
    refine (transmit_leads c m).imp ?_
    rintro _ (rfl | ⟨f, rfl⟩)
    · exact .pops trivial trivial trivial nofun
    · exact .pops trivial trivial trivial nofun
  | collecting ts => exact pops trivial trivial nofun
  | reporting =>
    cases v with
    | generation g => exact .alike (.emit w (.editDone w.clock g)) (pops trivial trivial nofun)
    | unit | outcome _ | exported _ | response _ | several _ => exact pops trivial trivial nofun
  | answeringEdit doc title => exact (editAnswered_leads doc title v).imp fun _ h => h.turn trivial trivial
  | answeringExport => exact (exportAnswered_leads v).imp fun _ h => h.turn trivial trivial
  | answering => exact pops trivial trivial nofun

theorem recover_leads {f : Frame} (e : Fault)
    (running : w.current = some (t, f :: fs, .fault e)) (plain : f.request? = none) :
    w.Leads t (Turn w (f :: fs) (.fault e)) (w.recover t fs e f) := by
  have ended : (Signal.fault e).IsEnd := trivial
  have fails : ∀ {f : Frame}, f.IsPlain →
      w.Leads t (Turn w (f :: fs) (.fault e)) (w.fail t fs e) :=
    fun plain => .fail (.pops plain ended trivial nofun)
  cases f with
  | notifying u rest =>
    have counted : w.Alike ((w.count "callback.errors").note (.subscriberFailed e.message)) :=
      .trans (.count w _) (.note _ _)
    obtain ⟨v, l, asides, told, landed⟩ := tellNext_leads (counted.current.trans running) ended
    refine ⟨v, l, .head (.alike counted) asides, .told trivial (by simp) ?_, landed⟩
    cases told with
    | through => exact .through
    | stale h => exact .stale h
    | script h mem acted => exact .script h mem acted
    | clients h mem => exact .clients h mem
    | nobody h mem => exact .nobody h mem
  | broadcasting m c rest =>
    have next : ∀ v : World,
        v.Leads t (Turn w (.broadcasting m c rest :: fs) (.fault e)) (v.broadcastNext t fs m rest) := by
      intro v
      refine (broadcastNext_leads m rest).imp ?_
      rintro _ (rfl | ⟨c', rest', rfl⟩)
      · exact .pops trivial trivial trivial nofun
      · exact .opens ended .broadcasting
    refine .alike (.note w (.clientDropped e.message)) ?_
    cases c with
    | some c => exact .alike (.dropClient _ c) (next _)
    | none => exact next _
  | serving c =>
    refine (handlingFailed_leads c e).imp ?_
    rintro _ rfl
    exact .pops trivial trivial trivial nofun
  | answeringExport => exact (exportRefused_leads e).imp fun _ h => h.turn trivial trivial
  | answering => exact .ret (.pops trivial trivial trivial nofun)
  | quiet r => cases plain
  | queueing r => cases plain
  | holding r => cases plain
  | acting i u rest => exact .fail .failed
  | running p => exact .fail (.faulted ⟨p, .inl rfl⟩)
  | limited p f => exact .fail (.faulted ⟨p, .inr (.inl ⟨f, rfl⟩)⟩)
  | stoppingFollower p why => exact .fail (.faulted ⟨p, .inr (.inr ⟨why, .inl rfl⟩)⟩)
  | reaping p why => exact .fail (.faulted ⟨p, .inr (.inr ⟨why, .inr rfl⟩)⟩)
  | issued _ | following _ | closing _ _ | idling _ | closingAll _ | stopping | exporting _ _ _
  | acknowledging _ _ | confirming _ _ | receiving _ | sending _ _ | collecting _ | reporting
  | answeringEdit _ _ => exact fails trivial

theorem abort_leads {f : Frame} {s : Signal} (running : w.current = some (t, f :: fs, s)) (ends : s.IsEnd)
    (plain : f.request? = none) : w.Leads t (Turn w (f :: fs) .cancelled) (w.abort t fs f) := by
  have unwinds : ∀ {x : World} {f : Frame}, f.IsPlain →
      x.Leads t (Turn w (f :: fs) .cancelled) (x.unwind t fs) :=
    fun plain => .unwind (.pops plain trivial trivial fun _ => rfl)
  cases f with
  | running p => exact (kill_leads .cancelled (.kills running ends rfl)).imp fun _ => .killedNow (.inl rfl)
  | stoppingFollower p why =>
    exact (kill_leads .cancelled (.kills running ends rfl)).imp fun _ => .killedNow (.inr ⟨why, rfl⟩)
  | limited p follower =>
    refine (limitedWaitOver_leads .cancelled ⟨p, fs, s, running⟩ (.kills running ends rfl)).imp ?_
    rintro _ (⟨o, rfl⟩ | ⟨stopped, killed⟩ | ⟨-, rfl⟩ | rfl)
    · exact .waited trivial
    · exact .lost trivial stopped killed
    · exact .heeded
    · exact .hurried
  | serving c => exact .alike (.setLink w c (.inl rfl)) (unwinds trivial)
  | receiving c => exact .alike (.setLink w c (.inl rfl)) (unwinds trivial)
  | quiet r => cases plain
  | queueing r => cases plain
  | holding r => cases plain
  | notifying u rest => exact .unwind .untold
  | acting i u rest => exact .unwind .stopped
  | reaping p why => exact .unwind .unreaped
  | issued _ | broadcasting _ _ _ | following _ | closing _ _ | idling _ | closingAll _ | stopping
  | exporting _ _ _ | acknowledging _ _ | confirming _ _ | sending _ _ | collecting _ | reporting
  | answeringEdit _ _ | answeringExport | answering => exact unwinds trivial

/-- The frames and the signal of a task that is neither at a request's own step nor about to edit
or to close. -/
def IsAside (fs : List Frame) : Signal → Prop
  | .start op => op.IsGiven ∧ (∀ doc text, op ≠ .edit doc text) ∧ ∀ doc, op ≠ .close doc
  | _ => ∀ f ∈ fs.head?, f.request? = none

theorem isAside_nil {s : Signal} (ends : s.IsEnd) : IsAside [] s := by
  cases s with
  | start => exact ends.elim
  | value | fault | cancelled => simp [IsAside]

theorem isAside_cons {f : Frame} {s : Signal} (ends : s.IsEnd) (plain : f.request? = none) :
    IsAside (f :: fs) s := by
  cases s with
  | start => exact ends.elim
  | value | fault | cancelled => simpa [IsAside] using plain

/-- One step of a running task that is at none of a request's own steps. -/
theorem move_leads {s : Signal} (running : w.current = some (t, fs, s)) (aside : IsAside fs s)
    (listed : ∀ x, ∀ u ∈ w.tasksOf x, u < w.tasks.length) :
    w.Leads t (Turn w fs s) (w.move t fs s) := by
  cases s with
  | start op => exact (begin_leads running aside.1 aside.2.1 aside.2.2 listed).imp fun _ => .begins
  | value v =>
    cases fs with
    | nil => exact .land (l := .finish _) (.done (r := .value v) rfl)
    | cons f rest => exact proceed_leads v running (aside f rfl)
  | fault e =>
    cases fs with
    | nil => exact .land (l := .finish _) (.done (r := .fault e) rfl)
    | cons f rest => exact recover_leads e running (aside f rfl)
  | cancelled =>
    cases fs with
    | nil => exact .land (l := .finish _) (.done (r := .cancelled) rfl)
    | cons f rest => exact abort_leads running trivial (aside f rfl)

end World
end InkPreview.Live
