import N2Kafka.Util.Pairs

namespace N2Kafka.Decoder.ZzParser

open Lib.CString Util.Pairs

def urlSpecials : Bytes := ascii ";/?:@=&"

def validPrefix : Bytes := ascii "/v1/data/"

/-- The topic part of a URL, or `none` where the source answers `-1`. -/
def extractUrlTopic (url : CStr) : Option Bytes :=
  if validPrefix.isPrefixOf url.1 then
    let topic := (url.1.drop validPrefix.length).takeWhile (· ∉ urlSpecials)
    if topic.length = 0 then none else some topic
  else none

/-- What `new_zz_session` reads out of the attribute list to pick its topic. -/
def sessionUrlTopic (msgVars : KeyvalList) : Option Bytes :=
  (valueof msgVars (lit "D-HTTP-URI") strcmp).bind extractUrlTopic

def methodAllowed (props : KeyvalList) : Bool :=
  match valueof props (lit "D-HTTP-method") strcmp with
  | some method => strcmp (lit "POST") method = 0
  | none => true

end N2Kafka.Decoder.ZzParser
