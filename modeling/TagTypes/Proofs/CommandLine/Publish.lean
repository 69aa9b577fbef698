import Mathlib.Data.List.DropRight
import Mathlib.Tactic
import TagTypes.CommandLine.Publish
import TagTypes.Proofs.Broker.Feed
import TagTypes.Proofs.Broker.Naming
import TagTypes.Proofs.Json.Consumption

/-!
# What is published is what is heard

The command publishes at most one message, and one if the broker takes its connection: under the base topic without the slashes at its end, on the level of the schema's name. A feed that listens to all levels below that base takes this message for what it was meant to be, and signals it once. A text that describes a schema is not blank, so it is never taken for a deletion.
-/

namespace TagTypes

namespace Schema

theorem isAllBlank_of_parse {name text : String} {schema : Schema} (hparse : Schema.parse name text = .ok schema) :
    Text.isAllBlank text = false := by
  unfold parse at hparse
  cases hread : Json.read text with
  | error reason => rw [hread] at hparse; cases hparse
  | ok v => exact Json.isAllBlank_of_read hread

end Schema

namespace Broker

/-- One level of a topic, with something in it and without wildcards. -/
structure IsLevel (name : String) : Prop where
  ne_empty : name ≠ ""
  plain : ∀ c ∈ name.toList, c ≠ '/' ∧ c ≠ '#' ∧ c ≠ '+'

theorem ofList_flattened {name : String} (hname : IsLevel name) : String.ofList (flattened name) = name := by
  have hsame : flattened name = name.toList.map id :=
    List.map_congr_left fun c hc => if_neg (hname.plain c hc).1
  rw [hsame, List.map_id, String.ofList_toList]

/-- On the level of a name a text is heard as the schema of that name, and a blank text as its deletion. -/
theorem signalOf?_level {base name : String} (hbase : IsBase base) (hname : IsLevel name) (text : String) :
    Feed.signalOf? (base ++ "/#") (base ++ "/" ++ name) text.toUTF8 =
      some (if Text.isAllBlank text then .deleted name else .received name text) := by
  have hdecoded : String.fromUTF8? text.toUTF8 = some text := dif_pos text.isValidUTF8
  rw [Feed.signalOf?, hdecoded, nameOf_below hbase, ofList_flattened hname]
  simp only [hname.ne_empty, if_false]
  split <;> rfl

/-- The messages that are published by some requests, as topics with their contents. -/
def publications (requests : List Request) : List (String × String) :=
  requests.filterMap fun
    | .publish topic payload _ _ => some (topic, payload)
    | _ => none

theorem publications_append (first second : List Request) :
    publications (first ++ second) = publications first ++ publications second :=
  List.filterMap_append

/-- The broker is reached and takes the connection. -/
def Conditions.opens (k : Conditions) : Bool := k.connectFault.isNone && k.answer = some 0

namespace Client

variable {η : Type} {c : Client η}

theorem publications_ask {requests : List Request} (hnone : publications requests = []) :
    publications (c.ask requests).requests = publications c.requests :=
  (publications_append c.requests requests).trans (by rw [hnone, List.append_nil])

theorem publications_renewals : publications c.renewals = [] := by
  rw [publications, renewals, List.filterMap_map, List.filterMap_eq_nil_iff]
  exact fun _ _ => rfl

theorem publications_answered (code : Int) : publications (c.answered code).requests = publications c.requests := by
  unfold answered
  split
  · exact publications_ask (c := { c with connected := true }) publications_renewals
  · rfl

theorem publications_connect (k : Conditions) (c : Client η) :
    publications (c.connect k).2.requests = publications c.requests := by
  simp only [connect]
  rcases k.connectFault with _ | _ | _
  · rcases k.answer with _ | code
    · rw [publications_ask rfl, publications_ask rfl, publications_ask rfl]
    · simp only
      split
      · rw [publications_answered, publications_ask rfl, publications_ask rfl]
      · rw [publications_ask rfl, publications_answered, publications_ask rfl, publications_ask rfl]
  · exact publications_ask rfl
  · exact publications_ask rfl

/-- A connection comes up if and only if the broker is reached and takes it. -/
theorem connect_ok_iff (k : Conditions) (c : Client η) : (c.connect k).1 = .ok () ↔ k.opens = true := by
  simp only [connect, Conditions.opens]
  rcases k.connectFault with _ | _ | _
  · rcases k.answer with _ | code
    · simp
    · simp only [Option.isNone_none, Bool.true_and, Option.some.injEq, decide_eq_true_eq]
      split <;> simp_all
  · simp
  · simp

theorem publications_disconnect (k : Conditions) (c : Client η) :
    publications (c.disconnect k).2.requests = publications c.requests := by
  simp only [disconnect]
  rcases k.disconnectFault with _ | _
  · exact (publications_ask (c := c.ask [.disconnect]) rfl).trans (publications_ask rfl)
  · exact publications_ask rfl

theorem publications_publish (k : Conditions) (topic payload : String) (qos : Int) (retain : Bool) (c : Client η) :
    publications (c.publish k topic payload qos retain).2.requests = publications c.requests ++ [(topic, payload)] :=
  publications_append c.requests [.publish topic payload qos retain]

theorem publications_create {settings : BrokerSettings} {id : Option String} (hcreate : create settings id = .ok c) :
    publications c.requests = [] := by
  unfold create at hcreate
  cases haddress : Address.parse settings.url with
  | error e => rw [haddress] at hcreate; cases hcreate
  | ok address =>
    rw [haddress] at hcreate
    cases hcreate
    simp only [setup, publications_append]
    split <;> split <;> rfl

end Client

end Broker

namespace CommandLine.Publish

open Broker (publications IsBase IsLevel Feed)

variable {texts : List String} {o : PublishOptions} {k : Broker.Conditions} {disk : Disk} {name text : String}

/-- The text without the slashes at its end. -/
def unslashed (text : String) : String := String.ofList (text.toList.rdropWhile (· = '/'))

theorem isBase_unslashed {base : String} (hne : unslashed base ≠ "") (hplain : ∀ c ∈ base.toList, c ≠ '#' ∧ c ≠ '+') :
    IsBase (unslashed base) where
  ne_empty := hne
  plain c hc := by
    rw [unslashed, String.toList_ofList] at hc
    exact hplain c ((List.rdropWhile_prefix _ _).subset hc)

/-- The message is published if the connection comes up, and otherwise nothing is. -/
theorem publications_send (client : Broker.Client Unit) :
    publications (send o name text k client).2.requests =
      publications client.requests ++ if k.opens then [(topic o.baseTopic name, text)] else [] := by
  have hconnect := Broker.Client.publications_connect k client
  have hopens := Broker.Client.connect_ok_iff k client
  unfold send
  rcases hresult : client.connect k with ⟨e | ⟨⟩, connected⟩
  · rw [hresult] at hconnect hopens
    have hclosed : k.opens = false := by simpa using hopens
    rw [hclosed, if_neg Bool.false_ne_true, List.append_nil, ← hconnect]
    cases e <;> rfl
  · rw [hresult] at hconnect hopens
    have hopen : k.opens = true := by simpa using hopens
    simp only at hconnect
    rw [hopen, if_pos rfl, ← hconnect]
    simp only [Broker.Client.publications_disconnect]
    rw [Broker.Client.publications_ask rfl, Broker.Client.publications_publish]

/-- The broker's address is well formed, and the broker takes the connection. -/
def isOpen (o : PublishOptions) (k : Broker.Conditions) : Bool := (Broker.Address.parse o.brokerUrl).isOk && k.opens

/-- The message is published if the broker can be reached, and otherwise nothing is. -/
theorem publications_run (hline : PublishOptions.read? texts = some o) (hname : Publish.name o = .ok name)
    (hpayload : payload o disk = .ok text) :
    publications (run texts k disk).requests = if isOpen o k then [(topic o.baseTopic name, text)] else [] := by
  unfold run
  rw [hline, isOpen]
  simp only [runWith, hname, hpayload]
  cases haddress : Broker.Address.parse o.brokerUrl with
  | error e =>
    have hcreate : Broker.Client.create (η := Unit) o.brokerSettings none = .error e := by
      rw [Broker.Client.create, PublishOptions.brokerSettings, haddress]
      rfl
    rw [hcreate]
    rfl
  | ok address =>
    obtain ⟨client, hcreate⟩ : ∃ client, Broker.Client.create (η := Unit) o.brokerSettings none = .ok client := by
      rw [Broker.Client.create, PublishOptions.brokerSettings, haddress]
      exact ⟨_, rfl⟩
    rw [hcreate]
    have hsend : publications (send o name text k client).2.requests = _ := publications_send client
    rw [Broker.Client.publications_create hcreate, List.nil_append] at hsend
    exact hsend

/-- What the command publishes is heard as it is meant. The base topic has something in it besides slashes at its end, and neither it nor the name has wildcards; the text, if there is to be one, is that of the schema file and describes a schema. Then the one message that is published is on a topic that the filter for all levels below the base admits, and a feed that is subscribed to this filter, whatever happened to it before, makes one signal of it: that the schema of the name is received with this text, or that it is deleted. -/
theorem published_heard (hline : PublishOptions.read? texts = some o)
    (hbase : unslashed o.baseTopic ≠ "") (hplain : ∀ c ∈ o.baseTopic.toList, c ≠ '#' ∧ c ≠ '+')
    (hname : Publish.name o = .ok name) (hlevel : IsLevel name)
    (hfile : o.deletes = false → ∃ file schema, o.schemaFile = some file ∧ disk.readText (FilePath.parse file) = .ok text ∧
      Schema.parse name text = .ok schema)
    {settings : BrokerSettings} (hfilter : settings.topic = unslashed o.baseTopic ++ "/#") {feed : Feed}
    (hfeed : Feed.create settings = .ok feed) {events : List Feed.Event}
    (hheard : (feed.undergoAll events).subscribed = true) :
    let topic := unslashed o.baseTopic ++ "/" ++ name
    let payload := if o.deletes then "" else text
    publications (run texts k disk).requests = (if isOpen o k then [(topic, payload)] else []) ∧
      Broker.TopicFilter.admits settings.topic topic = true ∧
      ((feed.undergoAll events).happen (·.message topic payload.toUTF8)).1 =
        [if o.deletes then .deleted name else .received name text] := by
  intro topic payload
  have hpayload : Publish.payload o disk = .ok payload := by
    cases hdeletes : o.deletes with
    | true => simp [Publish.payload, payload, hdeletes]
    | false =>
      obtain ⟨file, schema, hschema, hread, -⟩ := hfile hdeletes
      simp [Publish.payload, payload, hdeletes, hschema, hread, Except.mapError]
  have hadmits : Broker.TopicFilter.admits settings.topic topic = true := by
    rw [hfilter]
    exact Broker.admits_below _ name
  have hblank : Text.isAllBlank payload = o.deletes := by
    cases hdeletes : o.deletes with
    | true => simp [payload, hdeletes, Text.isAllBlank]
    | false =>
      obtain ⟨file, schema, -, -, hparse⟩ := hfile hdeletes
      simpa [payload, hdeletes] using Schema.isAllBlank_of_parse hparse
  refine ⟨publications_run hline hname hpayload, hadmits, ?_⟩
  rw [((Feed.tuned_create hfeed).undergoAll events).signals_message hheard hadmits, hfilter,
    Broker.signalOf?_level (isBase_unslashed hbase hplain) hlevel, hblank]
  cases hdeletes : o.deletes <;> simp [payload, hdeletes]

/-- A disk with a schema file, as it may stand in the working directory. -/
def motorDisk : Disk := { nodes := Dict.ofList [(["Motor.json"], .file "\x7b\r\n\x7d".toUTF8)] }

def plantSettings : BrokerSettings := { topic := "plant/schemas/#" }

def plantFeed : Feed := (Feed.create plantSettings).toOption.getD default

/-- The feed loses a connection, is disconnected and connected again. -/
def plantEvents : List Feed.Event := [.connect {}, .ended 7, .answered 0, .disconnect {}, .connect {}]

/-- A schema is published and deleted, with and without slashes after the base topic. -/
theorem published_heard_plant :
    publications (run ["-t", "plant/schemas//", "Motor.json"] {} motorDisk).requests = [("plant/schemas/Motor", "\x7b\n\x7d")] ∧
    ((plantFeed.undergoAll plantEvents).happen (·.message "plant/schemas/Motor" "\x7b\n\x7d".toUTF8)).1 =
      [.received "Motor" "\x7b\n\x7d"] ∧
    publications (run ["--delete", "-t", "plant/schemas", "-n", "Motor"] {} {}).requests = [("plant/schemas/Motor", "")] ∧
    ((plantFeed.undergoAll plantEvents).happen (·.message "plant/schemas/Motor" "".toUTF8)).1 = [.deleted "Motor"] := by
  have hfeed : Feed.create plantSettings = .ok plantFeed := by rfl
  have hheard : (plantFeed.undergoAll plantEvents).subscribed = true := by decide +kernel
  have hlevel : IsLevel "Motor" := ⟨by decide, by simp⟩
  have hread : motorDisk.readText (FilePath.parse "Motor.json") = .ok "\x7b\n\x7d" := by decide +kernel
  have hname : Publish.name { schemaFile := some "Motor.json", baseTopic := "plant/schemas//" } = .ok "Motor" :=
    toOption_eq_some_iff.1 (by decide +kernel)
  have hname' : Publish.name { name := some "Motor", baseTopic := "plant/schemas", deletes := true } = .ok "Motor" :=
    toOption_eq_some_iff.1 (by decide +kernel)
  have hparses : (Schema.parse "Motor" "\x7b\n\x7d").toOption.isSome = true := by decide +kernel
  obtain ⟨schema, hschema⟩ := Option.isSome_iff_exists.1 hparses
  have hparse := toOption_eq_some_iff.1 hschema
  have hsent : PublishOptions.read? ["-t", "plant/schemas//", "Motor.json"] =
      some { schemaFile := some "Motor.json", baseTopic := "plant/schemas//" } := by rfl
  have hdeleted : PublishOptions.read? ["--delete", "-t", "plant/schemas", "-n", "Motor"] =
      some { name := some "Motor", baseTopic := "plant/schemas", deletes := true } := by rfl
  have hsend := @published_heard _ _ {} motorDisk "Motor" "\x7b\n\x7d" hsent (by decide +kernel) (by simp) hname
    hlevel (fun _ => ⟨_, schema, rfl, hread, hparse⟩) plantSettings (by decide +kernel) plantFeed hfeed plantEvents hheard
  have hdelete := @published_heard _ _ {} {} "Motor" "" hdeleted (by decide +kernel) (by simp) hname'
    hlevel (fun h => by cases h) plantSettings (by decide +kernel) plantFeed hfeed plantEvents hheard
  have htopic : unslashed "plant/schemas//" ++ "/" ++ "Motor" = "plant/schemas/Motor" := by decide +kernel
  have htopic' : unslashed "plant/schemas" ++ "/" ++ "Motor" = "plant/schemas/Motor" := by decide +kernel
  simp only [htopic, Bool.false_eq_true, if_false] at hsend
  simp only [htopic', if_true] at hdelete
  exact ⟨hsend.1.trans (by decide +kernel), hsend.2.2, hdelete.1.trans (by decide +kernel), hdelete.2.2⟩

end CommandLine.Publish

end TagTypes
