import KulloClient.Base.Imperative
import KulloClient.Base.Table
import KulloClient.Types
import KulloClient.Util.Json
import KulloClient.Util.KulloAddress
import KulloClient.Db.Schema
import KulloClient.Dao.Message
import KulloClient.Db.SearchIndex
import KulloClient.Dao.Conversation
import KulloClient.Dao.Attachment
import KulloClient.Dao.Delivery
import KulloClient.Dao.Draft
import KulloClient.Dao.Sync
import KulloClient.Dao.UserSettings
import KulloClient.Util.Platform
import KulloClient.Codec.MessageEncoder
import KulloClient.Dao.SizeEstimates
import KulloClient.Sync.OutgoingProgress
import KulloClient.Sync.MessagesSender
import KulloClient.Sync.SenderContent
import KulloClient.Codec.MessageDecryptor
import KulloClient.Codec.MessageDecoder
import KulloClient.Sync.MessagesSyncer
import KulloClient.Sync.DownloadSkips
import KulloClient.Base.Pipeline
import KulloClient.Codec.AttachmentFilters
import KulloClient.Codec.AttachmentSplittingSink
import KulloClient.Codec.AttachmentStore
import KulloClient.Sync.AttachmentSyncer
import KulloClient.Sync.AttachmentContents
import KulloClient.Sync.AttachmentFrame
import KulloClient.Sync.AttachmentLoop
import KulloClient.Base.Runs
import KulloClient.Base.EventLoop
import KulloClient.Base.FullText
import KulloClient.ApiImpl.ConversationRuns
import KulloClient.ApiImpl.ParticipantKeys
import KulloClient.ApiImpl.ConversationsImpl
import KulloClient.ApiImpl.Events
import KulloClient.ApiImpl.SyncerImpl
import KulloClient.ApiImpl.SyncerJobs
import KulloClient.ApiImpl.SyncerRequests
import KulloClient.Crypto.SymmetricCryptor
import KulloClient.Sync.ProfileSyncer
import KulloClient.Sync.ProfileEdits
import KulloClient.Crypto.Authenticity
import KulloClient.Codec.MessageFraming
import KulloClient.Codec.MessageRoundTrip
import KulloClient.Sync.MessagesUploader
import KulloClient.Sync.UploaderSteps
import KulloClient.Sync.UploadedMessage
import KulloClient.Sync.UploaderFailures
import KulloClient.Sync.UploadOnce
import KulloClient.Sync.SenderEffects
import KulloClient.Sync.Deliveries
import KulloClient.Sync.SignatureKeys
import KulloClient.Sync.UploaderProgress
import KulloClient.Sync.SenderProgress
import KulloClient.Sync.SyncerProgress
import KulloClient.Dao.AttachmentContent
import KulloClient.Dao.AttachmentPairs
import KulloClient.Sync.MessageRows
import KulloClient.ApiImpl.MessagesImpl
import KulloClient.ApiImpl.MessageRuns
import KulloClient.ApiImpl.DraftAttachmentsImpl
import KulloClient.ApiImpl.DraftAttachmentRuns
import KulloClient.ApiImpl.AttachmentLimit
import KulloClient.Base.Regex
import KulloClient.Util.AddressGrammar
import KulloClient.Util.Strings
import KulloClient.Util.MasterKey
import KulloClient.Util.MasterKeyPem
import KulloClient.Util.Luhn
import KulloClient.Util.UrlEncoding
import KulloClient.Crypto.DecryptingFilter
import KulloClient.Util.FilterChain
import KulloClient.Util.GZip
import KulloClient.Codec.StreamSplitting
import KulloClient.Codec.AttachmentStreams
import KulloClient.Dao.MessageSearch
import KulloClient.ApiImpl.MasterKeyHelpers
import KulloClient.Db.Migration
import KulloClient.Protocol.MessagesClient
import KulloClient.Util.DateTime
import KulloClient.ApiImpl.Devices
import KulloClient.ApiImpl.MergedRows
import KulloClient.ApiImpl.LocalChanges
import KulloClient.ApiImpl.DraftRuns
import KulloClient.Sync.DownloadPages
import KulloClient.Sync.KeysSyncer
import KulloClient.Util.MessageHtml
