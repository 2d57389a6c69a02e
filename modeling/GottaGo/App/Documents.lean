/-
GottaGo.App.Documents — what the documents of the app are.

`AppDoc committed` says of every path which documents the app puts
there. A user, a list, an invite or a place can be read by the decoder of
its class, and an entry of the directory holds a string. The document of
a user holds the user's own id, and a place lies under its own id or has
none. An invite that asks for an answer lies with its invitee, and a
notice with the list's owner.

Whoever a list names or who has the list has been admitted to it by
writes of `committed`: `Admitted` is the account that the list was created
for, one who has accepted an invite from someone admitted, or one who was
signed in while a page showed someone admitted (`sees`). Only who the list
was created for is named as the owner. An invite was sent by a member to
somebody with a name, and a notice says what such an invite said
(`Answers`). With every write in `committed` all of this holds, and what is
left is `Decodes`.
-/
import GottaGo.Firestore.Schema
import GottaGo.Invites.LifeCycle
import GottaGo.Model.Codecs
import GottaGo.Repository.Footprints

namespace GottaGo

open GottaGo.Async GottaGo.Firestore

/-! ## Members -/

/-- List `l` was created with user `u` as its owner. -/
def Founded (committed : Write Path → Prop) (l u : String) : Prop :=
  ∃ d, committed (.set (.placeLists l) d) ∧ d.get? "listOwnerId" = some (.str u)

/-- User `u` came to have list `l` by writes of `committed`; if `sees a p`,
somebody signed in as `a` may have used a page of `p`. -/
inductive Admitted (sees : String → String → Prop) (committed : Write Path → Prop) (l : String) :
    String → Prop
  | owner {u : String} : Founded committed l u → Admitted sees committed l u
  | page {a p : String} : Admitted sees committed l p → sees a p → Admitted sees committed l a
  | invitee {sent : Invite} {id : String} {d d' : Doc} :
      Admitted sees committed l sent.listOwnerId → sent.placeListId = l →
      committed (.set (.invites sent.invitedUserId id) d) →
      Invite.fromSnapshot id (some d) = .ok sent → sent.inviteStatus = "sent" →
      committed (.set (.invites sent.listOwnerId id) d') →
      Invite.fromSnapshot id (some d') =
        .ok (sent.copyWith { inviteStatus := some "accepted" }) →
      Admitted sees committed l sent.invitedUserId

/-- Where the pages show who is signed in, only invites admit. -/
theorem Admitted.of_own {sees : String → String → Prop} {committed : Write Path → Prop}
    {l u : String} (h : Admitted sees committed l u) (hown : ∀ a p, sees a p → a = p) :
    Admitted (fun _ _ => False) committed l u := by
  induction h with
  | owner hfounded => exact .owner hfounded
  | page _ hsees ih => exact hown _ _ hsees ▸ ih
  | invitee _ hlist hset hread hsent haccepted hread' ih =>
    exact .invitee ih hlist hset hread hsent haccepted hread'

/-- User `u` has registered a name. -/
def HasRegistered (committed : Write Path → Prop) (u : String) : Prop :=
  ∃ n d, committed (.set (.usernames n) d) ∧ d.get? "userId" = some (.str u)

/-- `sent` was sent to user `u` under the id `id`, by a member of its list. -/
def Invited (sees : String → String → Prop) (committed : Write Path → Prop) (u id : String)
    (sent : Invite) : Prop :=
  sent.inviteStatus = "sent" ∧ sent.invitedUserId = u ∧
    Admitted sees committed sent.placeListId sent.listOwnerId ∧
    ∃ d, committed (.set (.invites u id) d) ∧ Invite.fromSnapshot id (some d) = .ok sent

/-- The notice is an invite that was sent, but for the status. -/
def Answers (sees : String → String → Prop) (committed : Write Path → Prop) (id : String)
    (notice : Invite) : Prop :=
  ∃ sent status, Invited sees committed sent.invitedUserId id sent ∧
    notice = sent.copyWith { inviteStatus := some status }

section Unknown

/-! When nothing is known of the writes, anybody may have made them. -/

theorem founded_of_true (l u : String) : Founded (fun _ => True) l u :=
  ⟨Doc.ofList [("listOwnerId", .str u)], trivial, by simp⟩

variable {sees : String → String → Prop}

theorem admitted_of_true (l u : String) : Admitted sees (fun _ => True) l u :=
  .owner (founded_of_true l u)

theorem hasRegistered_of_true (u : String) : HasRegistered (fun _ => True) u :=
  ⟨"", Doc.ofList [("userId", .str u)], trivial, by simp⟩

theorem answers_of_true {id : String} {notice : Invite} (hid : notice.inviteId = some id) :
    Answers sees (fun _ => True) id notice := by
  refine ⟨notice.copyWith { inviteStatus := some "sent" }, notice.inviteStatus,
    ⟨rfl, rfl, admitted_of_true _ _,
      Doc.ofList (notice.copyWith { inviteStatus := some "sent" }).toDocument, trivial, ?_⟩, ?_⟩
  · rw [Invite.fromSnapshot_toDocument]
    simp [Invite.copyWith, hid]
  · simp [Invite.copyWith]

end Unknown

/-! ## The documents of each collection -/

/-- The document of user `uid`, whose lists satisfy `has`. -/
structure UserDoc (has : String → Prop) (uid : String) (d : Doc) : Prop where
  id : d.get? "id" = some (.str uid)
  texts : ∀ f ∈ ["userName", "name", "email", "profilePicture"],
    ∃ x, d.get? f = some (Value.ofString? x)
  lists : ∃ ids, d.get? "placeListIds" = some (.strs ids) ∧ ∀ l ∈ ids, has l

/-- The document of a list, whose owner satisfies `owns` and whose contributors
satisfy `has`. -/
structure ListDoc (owns has : String → Prop) (d : Doc) : Prop where
  name : ∃ s, d.get? "name" = some (.str s)
  placeCount : ∃ n, d.get? "placeCount" = some (.int n)
  icon : ∃ fs, d.get? "icon" = some (.map fs)
  owner : ∃ o, d.get? "listOwnerId" = some (.str o) ∧ owns o
  contributors : ∃ ids, d.get? "contributorIds" = some (.strs ids) ∧ ∀ u ∈ ids, has u

/-- Invite `invite` may lie with `uid`. -/
def LiesAt (uid : String) (invite : Invite) : Prop :=
  invite.inviteStatus = "sent" ∧ invite.invitedUserId = uid ∨
    (invite.inviteStatus = "accepted" ∨ invite.inviteStatus = "declined") ∧
      invite.listOwnerId = uid

/-- The document of a place under the id `id`. -/
def PlaceDoc (id : String) (d : Doc) : Prop :=
  ∃ place, Place.fromSnapshot (some d) = .ok place ∧
    (place.placeId = some id ∨ place.placeId = none)

/-- The documents of the app; `committed` contains the writes so far. -/
def AppDoc (sees : String → String → Prop) (committed : Write Path → Prop) : Path → Doc → Prop
  | .users uid, d => UserDoc (fun l => Admitted sees committed l uid) uid d
  | .placeLists l, d => ListDoc (Founded committed l) (Admitted sees committed l) d
  | .invites uid id, d =>
    committed (.set (.invites uid id) d) ∧
      ∃ invite, Invite.fromSnapshot id (some d) = .ok invite ∧ LiesAt uid invite ∧
        (invite.inviteStatus = "sent" →
          Admitted sees committed invite.placeListId invite.listOwnerId ∧
            HasRegistered committed uid) ∧
        (invite.inviteStatus ≠ "sent" → Answers sees committed id invite)
  | .places _ id, d => PlaceDoc id d
  | .visitedPlaces _ id, d => PlaceDoc id d
  | .usernames n, d =>
    committed (.set (.usernames n) d) ∧ ∃ uid, d.get? "userId" = some (.str uid)

/-- No document has to be there, and those that are there are the app's. -/
def AppSchema (sees : String → String → Prop) (committed : Write Path → Prop) : Schema Path :=
  fun p snap => ∀ d, snap = some d → AppDoc sees committed p d

/-- The app can read the document where it lies. -/
def Decodes : Path → Doc → Prop
  | .users uid, d =>
    (∃ user, User.fromSnapshot uid (some d) = .ok user) ∧ d.get? "id" = some (.str uid)
  | .placeLists l, d => ∃ placeList, PlaceList.fromSnapshot l (some d) = .ok placeList
  | .invites uid id, d =>
    ∃ invite, Invite.fromSnapshot id (some d) = .ok invite ∧ LiesAt uid invite
  | .places _ id, d => PlaceDoc id d
  | .visitedPlaces _ id, d => PlaceDoc id d
  | .usernames _, d => ∃ uid, d.get? "userId" = some (.str uid)

/-- The app can read every document where it lies. -/
def AllDecode (s : Store Path) : Prop := ∀ p d, s.get p = some d → Decodes p d

section AppSchema

variable {sees : String → String → Prop} {committed : Write Path → Prop} {p : Path}

theorem appSchema_none : AppSchema sees committed p none := nofun

theorem appSchema_some {d : Doc} :
    AppSchema sees committed p (some d) ↔ AppDoc sees committed p d := by
  constructor
  · exact fun h => h d rfl
  · rintro h _ ⟨⟩
    exact h

theorem keeps_set {d : Doc} (h : AppDoc sees committed p d) :
    (AppSchema sees committed).Keeps (.set p d) :=
  appSchema_some.mpr h

theorem keeps_update {fs : List (String × FieldWrite)}
    (h : ∀ d, AppDoc sees committed p d → AppDoc sees committed p (d.update fs)) :
    (AppSchema sees committed).Keeps (.update p fs) :=
  fun d hd => appSchema_some.mpr (h d (appSchema_some.mp hd))

theorem keeps_delete : (AppSchema sees committed).Keeps (.delete p) := appSchema_none

end AppSchema

/-- A document that can be read as a list. -/
theorem PlaceList.fromSnapshot_isOk {id : String} {d : Doc} :
    (∃ placeList, PlaceList.fromSnapshot id (some d) = .ok placeList) ↔
      ListDoc (fun _ => True) (fun _ => True) d := by
  have hmap : ∀ v fs, asMap v = .ok fs ↔ v = .map fs := by
    intro v fs
    cases v <;> simp [asMap]
  have hint : ∀ v n, asInt v = .ok n ↔ v = .int n := by
    intro v n
    cases v <;> simp [asInt]
  simp only [PlaceList.fromSnapshot, bind_eq_ok, Place.fieldOf_some_eq_ok, asString_eq_ok,
    stringsFrom_eq_ok, hmap, hint]
  constructor
  · intro h
    obtain ⟨_, n, ⟨_, h₁, rfl⟩, s, ⟨_, h₂, rfl⟩, fs, ⟨_, h₃, rfl⟩, o, ⟨_, h₄, rfl⟩, ids,
      ⟨_, h₅, rfl⟩, -⟩ := h
    exact ⟨⟨s, h₂⟩, ⟨n, h₁⟩, ⟨fs, h₃⟩, ⟨o, h₄, trivial⟩, ⟨ids, h₅, fun _ _ => trivial⟩⟩
  · intro h
    obtain ⟨⟨s, h₂⟩, ⟨n, h₁⟩, ⟨fs, h₃⟩, ⟨o, h₄, -⟩, ⟨ids, h₅, -⟩⟩ := h
    exact ⟨_, n, ⟨_, h₁, rfl⟩, s, ⟨_, h₂, rfl⟩, fs, ⟨_, h₃, rfl⟩, o, ⟨_, h₄, rfl⟩, ids,
      ⟨_, h₅, rfl⟩, rfl⟩

/-- A document of the app can be read. -/
theorem AppDoc.decodes {sees : String → String → Prop} {committed : Write Path → Prop} {p : Path}
    {d : Doc} (h : AppDoc sees committed p d) : Decodes p d := by
  cases p with
  | users uid =>
    refine ⟨User.fromSnapshot_isOk.mpr ⟨d, rfl, h.texts, ?_⟩, h.id⟩
    obtain ⟨ids, hids, -⟩ := h.lists
    exact ⟨ids, hids⟩
  | placeLists l =>
    obtain ⟨ids, hids, -⟩ := h.contributors
    obtain ⟨o, ho, -⟩ := h.owner
    exact PlaceList.fromSnapshot_isOk.mpr
      ⟨h.name, h.placeCount, h.icon, ⟨o, ho, trivial⟩, ⟨ids, hids, fun _ _ => trivial⟩⟩
  | invites uid id =>
    obtain ⟨-, invite, hread, hlies, -⟩ := h
    exact ⟨invite, hread, hlies⟩
  | places l id => exact h
  | visitedPlaces l id => exact h
  | usernames n => exact h.2

/-- Where nothing is known of the writes, a document that can be read is one
of the app's. -/
theorem Decodes.appDoc {sees : String → String → Prop} {p : Path} {d : Doc} (h : Decodes p d) :
    AppDoc sees (fun _ => True) p d := by
  cases p with
  | users uid =>
    obtain ⟨huser, hid⟩ := h
    obtain ⟨d', hd', htexts, ids, hids⟩ := User.fromSnapshot_isOk.mp huser
    cases hd'
    exact ⟨hid, htexts, ids, hids, fun l _ => admitted_of_true l uid⟩
  | placeLists l =>
    obtain ⟨hname, hcount, hicon, ⟨o, ho, -⟩, ids, hids, -⟩ := PlaceList.fromSnapshot_isOk.mp h
    exact ⟨hname, hcount, hicon, ⟨o, ho, founded_of_true l o⟩, ids, hids,
      fun u _ => admitted_of_true l u⟩
  | invites uid id =>
    obtain ⟨invite, hread, hlies⟩ := h
    exact ⟨trivial, invite, hread, hlies,
      fun _ => ⟨admitted_of_true _ _, hasRegistered_of_true _⟩,
      fun _ => answers_of_true (Invite.fromSnapshot_ok hread).1⟩
  | places l id => exact h
  | visitedPlaces l id => exact h
  | usernames n => exact ⟨trivial, h⟩

/-! ## Writes that keep the schema -/

/-- An array of ids of which each satisfies `has`, and still does after the
write. -/
def KeepsIds (has : String → Prop) (w : FieldWrite) : Prop :=
  ∀ ids : List String, (∀ x ∈ ids, has x) →
    ∃ ids', w.apply (some (.strs ids)) = .strs ids' ∧ ∀ x ∈ ids', has x

theorem KeepsIds.arrayUnion {has : String → Prop} {x : String} (hx : has x) :
    KeepsIds has (.arrayUnion [.str x]) := by
  intro ids hids
  by_cases hmem : x ∈ ids
  · exact ⟨ids, by simp [FieldWrite.apply, unionTo, Value.strs, hmem], hids⟩
  · refine ⟨ids ++ [x], by simp [FieldWrite.apply, unionTo, Value.strs, hmem], ?_⟩
    intro y hy
    rcases List.mem_append.mp hy with hy | hy
    · exact hids y hy
    · rwa [List.mem_singleton.mp hy]

theorem KeepsIds.arrayRemove (has : String → Prop) (vs : List Value) :
    KeepsIds has (.arrayRemove vs) := by
  intro ids hids
  refine ⟨ids.filter fun id => .str id ∉ vs, ?_, fun x hx => hids x (List.mem_filter.mp hx).1⟩
  simp [FieldWrite.apply, removeFrom, Value.strs, List.filter_map, Function.comp_def]

/-- What was written as plain values is there. -/
theorem get?_update_putAll (d : Doc) {fs : List (String × Value)} {f : String} {v : Value}
    (hnd : (fs.map Prod.fst).Nodup) (h : (f, v) ∈ fs) :
    (d.update (putAll fs)).get? f = some v := by
  have hnames : (putAll fs).map Prod.fst = fs.map Prod.fst := by
    simp [putAll]
  exact Doc.get?_update_of_mem d (w := .put v) (hnames ▸ hnd) (List.mem_map.mpr ⟨_, h, rfl⟩)

/-- So it is in the document of a map literal. -/
theorem get?_ofList_of_mem {fs : List (String × Value)} {f : String} {v : Value}
    (hnd : (fs.map Prod.fst).Nodup) (h : (f, v) ∈ fs) : (Doc.ofList fs).get? f = some v := by
  rw [Doc.get?_ofList]
  induction fs with
  | nil => cases h
  | cons p fs ih =>
    obtain ⟨g, w⟩ := p
    rw [List.map_cons, List.nodup_cons] at hnd
    rcases List.mem_cons.mp h with heq | hmem
    · cases heq
      simp
    · have hne : f ≠ g := by
        rintro rfl
        exact hnd.1 (List.mem_map.mpr ⟨(f, v), hmem, rfl⟩)
      have hb : (f == g) = false := by simpa using hne
      rw [List.lookup_cons, hb]
      exact ih hnd.2 hmem

section UserDoc

variable {has : String → Prop} {uid : String}

/-- A document with the fields of a user. -/
theorem UserDoc.of_user {user : User} {ids : List String} {d : Doc}
    (hid : user.id = some uid) (hids : user.placeListIds = some ids) (hhas : ∀ l ∈ ids, has l)
    (h : ∀ f v, (f, v) ∈ user.toDocument → d.get? f = some v) : UserDoc has uid d := by
  refine ⟨?_, ?_, ids, ?_, hhas⟩
  · rw [h "id" (.ofString? user.id) (by simp [User.toDocument]), hid]
    rfl
  · intro f hf
    simp only [List.mem_cons, List.not_mem_nil, or_false] at hf
    rcases hf with rfl | rfl | rfl | rfl
    · exact ⟨user.userName, h _ _ (by simp [User.toDocument])⟩
    · exact ⟨user.name, h _ _ (by simp [User.toDocument])⟩
    · exact ⟨user.email, h _ _ (by simp [User.toDocument])⟩
    · exact ⟨user.profilePicture, h _ _ (by simp [User.toDocument])⟩
  · rw [h "placeListIds" (Value.ofStrings? user.placeListIds) (by simp [User.toDocument]), hids]
    rfl

/-- A change of the user's lists that keeps them what they are. -/
theorem UserDoc.update_lists {d : Doc} {w : FieldWrite} (h : UserDoc has uid d)
    (hw : KeepsIds has w) : UserDoc has uid (d.update [("placeListIds", w)]) := by
  obtain ⟨ids, hids, hhas⟩ := h.lists
  obtain ⟨ids', happly, hhas'⟩ := hw ids hhas
  refine ⟨?_, ?_, ids', ?_, hhas'⟩
  · rw [Doc.get?_update_single, if_neg (by simp)]
    exact h.id
  · intro f hf
    rw [Doc.get?_update_single, if_neg (by rintro rfl; simp at hf)]
    exact h.texts f hf
  · rw [Doc.get?_update_single, if_pos rfl, hids, happly]

theorem UserDoc.update_picture {d : Doc} (h : UserDoc has uid d) (url : String) :
    UserDoc has uid (d.update [("profilePicture", .put (.str url))]) := by
  obtain ⟨ids, hids, hhas⟩ := h.lists
  refine ⟨?_, ?_, ids, ?_, hhas⟩
  · rw [Doc.get?_update_single, if_neg (by simp)]
    exact h.id
  · intro f hf
    rw [Doc.get?_update_single]
    split
    · exact ⟨some url, rfl⟩
    · exact h.texts f hf
  · rw [Doc.get?_update_single, if_neg (by simp)]
    exact hids

end UserDoc

section ListDoc

variable {owns has : String → Prop}

/-- A document with the fields of a list. -/
theorem ListDoc.of_placeList {placeList : PlaceList} {ids : List String} {d : Doc}
    {fs : List (String × Value)} (hids : placeList.contributorIds = some ids)
    (hhas : ∀ u ∈ ids, has u) (howner : owns placeList.listOwnerId)
    (hfs : placeList.toDocument = .ok fs)
    (h : ∀ f v, (f, v) ∈ fs → d.get? f = some v) : ListDoc owns has d := by
  rw [PlaceList.toDocument, hids] at hfs
  cases hfs
  exact ⟨⟨placeList.name, h _ _ (by simp)⟩, ⟨placeList.placeCount, h _ _ (by simp)⟩,
    ⟨placeList.icon, h _ _ (by simp)⟩, ⟨placeList.listOwnerId, h _ _ (by simp), howner⟩,
    ⟨ids, h _ _ (by simp), hhas⟩⟩

/-- A change of the contributors that keeps them what they are. -/
theorem ListDoc.update_contributors {d : Doc} {w : FieldWrite} (h : ListDoc owns has d)
    (hw : KeepsIds has w) : ListDoc owns has (d.update [("contributorIds", w)]) := by
  obtain ⟨ids, hids, hhas⟩ := h.contributors
  obtain ⟨ids', happly, hhas'⟩ := hw ids hhas
  have hother : ∀ f, f ≠ "contributorIds" →
      (d.update [("contributorIds", w)]).get? f = d.get? f := by
    intro f hf
    rw [Doc.get?_update_single, if_neg hf]
  constructor
  case name => rw [hother _ (by simp)]; exact h.name
  case placeCount => rw [hother _ (by simp)]; exact h.placeCount
  case icon => rw [hother _ (by simp)]; exact h.icon
  case owner => rw [hother _ (by simp)]; exact h.owner
  case contributors =>
    refine ⟨ids', ?_, hhas'⟩
    rw [Doc.get?_update_single, if_pos rfl, hids, happly]

end ListDoc

section Arrays

variable {sees : String → String → Prop} {committed : Write Path → Prop} {w : FieldWrite}

theorem keeps_lists {uid : String} (h : KeepsIds (fun l => Admitted sees committed l uid) w) :
    (AppSchema sees committed).Keeps (.update (.users uid) [("placeListIds", w)]) :=
  keeps_update fun _ hd => UserDoc.update_lists hd h

theorem keeps_contributors {l : String} (h : KeepsIds (Admitted sees committed l) w) :
    (AppSchema sees committed).Keeps (.update (.placeLists l) [("contributorIds", w)]) :=
  keeps_update fun _ hd => ListDoc.update_contributors hd h

end Arrays

end GottaGo
