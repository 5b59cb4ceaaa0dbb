import VssServer.Runs
import VssServer.Measures
import VssServer.Directory
import VssServer.SingletonStorage
import VssServer.StorageSteps
import VssServer.StorageObjects
import VssServer.StorageInvariants
import VssServer.StorageDirectory
import VssServer.OneInstance
import VssServer.Retirement
import VssServer.Sequential
import VssServer.Deletion
import VssServer.Stranding
import VssServer.Deadlock
import VssServer.Operations
import VssServer.Collection
import VssServer.Reachability
import VssServer.IdleStorage
import VssServer.Collector
import VssServer.Garbage
import VssServer.CollectionRounds
import VssServer.CollectedCount
import VssServer.Releases
import VssServer.ReferenceCache
import VssServer.Permissions
import VssServer.Response
import VssServer.Server
import VssServer.ServerSteps
import VssServer.OperationSteps
import VssServer.PermissionChecks
import VssServer.ServerInvariants
import VssServer.Subscriptions
import VssServer.Deliveries
import VssServer.HttpReplies
import VssServer.Entries
import VssServer.LiveOperations
import VssServer.StoppedSubscriptions
import VssServer.MainThread
import VssServer.SchemaCalls
import VssServer.TearDown
import VssServer.Weights
import VssServer.GarbageTimer
import VssServer.Messages
import VssServer.Replica
import VssServer.AttributeCache
import VssServer.EventAttribute
import VssServer.AttributeProxies
import VssServer.Efforts
import VssServer.Phases
import VssServer.Creations
import VssServer.CallsReturn
import VssServer.ClearedStorage
import VssServer.Document
import VssServer.OperationKinds
import VssServer.SubscriptionNames
import VssServer.RootFieldNames
import VssServer.UniqueEvents
import VssServer.JwtAuthorizer
import VssServer.TokenErrors
import VssServer.StoppedQueries
import VssServer.SubscriptionHandshake
import VssServer.UsedSingletons
import VssServer.Histories
import VssServer.Batches
import VssServer.Notifications
import VssServer.NotifierRefinement
import VssServer.RateLimit
import VssServer.DeliveryRefinement
import VssServer.Settling
import VssServer.Shutdown
import VssServer.ShutdownReturns
import VssServer.Observers
import VssServer.Freshness
import VssServer.HttpAnswers
import VssServer.ReplyTasks
import VssServer.Conversations
import VssServer.Access
import VssServer.CriticalSections
import VssServer.LockedValues
import VssServer.Brackets
import VssServer.Doubles
import VssServer.Numerals
import VssServer.Scanf
import VssServer.Printf
import VssServer.MessageParts
import VssServer.TemplateArguments
import VssServer.Scalars
import VssServer.RangeValidation
import VssServer.FloatRanges
import VssServer.HSVColor
import VssServer.ColorInput
import VssServer.ColorText
